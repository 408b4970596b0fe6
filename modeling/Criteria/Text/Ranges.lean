/-
A character class of a standard is given as ranges of code points in ascending order. Membership
is decided by one walk over the ranges that stops at the first one beyond the code point, so a
character low in the standard is decided after a few steps however long the table is.
-/
set_option autoImplicit false

namespace Criteria.Text

/-- A table of code points: each entry is a range with both ends included, and the ranges stand
in ascending order. -/
abbrev Ranges := List (Nat × Nat)

namespace Ranges

/-- Whether a code point lies in one of the ranges. -/
def has (n : Nat) : Ranges → Bool
  | [] => false
  | (lo, hi) :: rs => if n < lo then false else n ≤ hi || has n rs

/-- Whether every range is nonempty and starts above `bound`, and above the end of the range
before it. -/
def ascendsFrom : (bound : Nat) → Ranges → Bool
  | _, [] => true
  | bound, (lo, hi) :: rs => bound ≤ lo && lo ≤ hi && ascendsFrom (hi + 1) rs

/-- The number of code points in the ranges. -/
def count : Ranges → Nat
  | [] => 0
  | (lo, hi) :: rs => hi + 1 - lo + count rs

theorem le_of_ascendsFrom {bound : Nat} {rs : Ranges} (h : ascendsFrom bound rs) :
    ∀ p ∈ rs, bound ≤ p.1 := by
  induction rs generalizing bound with
  | nil => simp
  | cons p rs ih =>
    obtain ⟨lo, hi⟩ := p
    simp only [ascendsFrom, Bool.and_eq_true, decide_eq_true_eq] at h
    intro q hq
    rcases List.mem_cons.mp hq with rfl | hmem
    · exact h.1.1
    · have := ih h.2 q hmem
      omega

/-- Stopping early is right: in an ascending table the walk finds a range that holds the code
point whenever there is one. -/
theorem has_iff {bound n : Nat} {rs : Ranges} (h : ascendsFrom bound rs) :
    has n rs ↔ ∃ p ∈ rs, p.1 ≤ n ∧ n ≤ p.2 := by
  induction rs generalizing bound with
  | nil => simp [has]
  | cons p rs ih =>
    obtain ⟨lo, hi⟩ := p
    simp only [ascendsFrom, Bool.and_eq_true, decide_eq_true_eq] at h
    have above := le_of_ascendsFrom h.2
    by_cases hlo : n < lo
    · simp only [has, hlo, if_true, Bool.false_eq_true, List.mem_cons, exists_eq_or_imp, false_iff,
        not_or, not_exists, not_and]
      refine ⟨fun h' => by omega, fun q hq hle => ?_⟩
      have := above q hq
      omega
    · simp only [has, hlo, if_false, Bool.or_eq_true, decide_eq_true_eq, ih h.2, List.mem_cons,
        exists_eq_or_imp]
      constructor
      · rintro (hhi | hmem)
        · exact .inl ⟨by omega, hhi⟩
        · exact .inr hmem
      · rintro (⟨_, hhi⟩ | hmem)
        · exact .inl hhi
        · exact .inr hmem

/-- The code points in the ranges. -/
def codes (rs : Ranges) : List Nat :=
  rs.flatMap fun r => (List.range (r.2 + 1 - r.1)).map (r.1 + ·)

theorem mem_codes_of_has {bound n : Nat} {rs : Ranges} (hrs : ascendsFrom bound rs)
    (h : has n rs) : n ∈ codes rs := by
  obtain ⟨r, hr, hlo, hhi⟩ := (has_iff hrs).mp h
  refine List.mem_flatMap.mpr ⟨r, hr, List.mem_map.mpr ⟨n - r.1, ?_, ?_⟩⟩
  · rw [List.mem_range]
    omega
  · omega

end Ranges

end Criteria.Text
