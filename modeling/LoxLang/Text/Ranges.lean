/-!
# Ranges of code points

A class of characters is given by a list of ranges of code points, in ascending
order and without overlap.  Membership walks the list and stops at the first
range that lies beyond the character.

## Main definitions

* `CodeRanges` — ascending ranges, each with both of its ends included.
* `CodeRanges.has` — membership.

## Main results

* `CodeRanges.exists_of_has` — membership means lying in one of the ranges.
-/

namespace LoxLang

/-- Ascending ranges of code points, each with both of its ends included. -/
abbrev CodeRanges := List (Nat × Nat)

namespace CodeRanges

/-- Whether a code point lies in one of the ranges. -/
def has : CodeRanges → Nat → Bool
  | [], _ => false
  | (lo, hi) :: rs, n => if n < lo then false else n ≤ hi || has rs n

/-- A code point that is found lies in one of the ranges. -/
theorem exists_of_has {rs : CodeRanges} {n : Nat} (h : rs.has n = true) :
    ∃ r ∈ rs, r.1 ≤ n ∧ n ≤ r.2 := by
  induction rs with
  | nil => cases h
  | cons r rs ih =>
    rw [has] at h
    by_cases hlow : n < r.1
    · simp [hlow] at h
    · simp only [hlow, if_false, Bool.or_eq_true, decide_eq_true_eq] at h
      rcases h with hhigh | h
      · exact ⟨r, List.mem_cons_self, Nat.le_of_not_lt hlow, hhigh⟩
      · obtain ⟨r', hr', hn⟩ := ih h
        exact ⟨r', List.mem_cons_of_mem r hr', hn⟩

end CodeRanges

end LoxLang
