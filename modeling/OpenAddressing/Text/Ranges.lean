/-!
# Ranges of code points

A set of code points as ascending ranges. A look-up goes along the ranges and stops at the first
that begins behind the number; `contains_iff` says that in an ascending table it misses nothing.
-/

namespace OpenAddressing.Text

/-- A set of numbers in ranges, each a first and a last number. -/
abbrev Ranges := List (Nat × Nat)

namespace Ranges

/-- Whether some range holds a number, when the ranges ascend. -/
def contains : Ranges → Nat → Bool
  | [], _ => false
  | (first, last) :: rest, n => first ≤ n && (n ≤ last || contains rest n)

/-- Whether each range is nonempty and ends before the next begins. -/
def isAscending : Ranges → Bool
  | [] => true
  | [(first, last)] => first ≤ last
  | (first, last) :: (first', last') :: rest =>
    first ≤ last && last < first' && isAscending ((first', last') :: rest)

/-- In an ascending table no range begins before the first one. -/
theorem first_le_of_isAscending {first last : Nat} {rest : Ranges}
    (h : isAscending ((first, last) :: rest) = true) :
    ∀ r ∈ (first, last) :: rest, first ≤ r.1 := by
  induction rest generalizing first last with
  | nil => simp
  | cons r rest ih =>
    obtain ⟨first', last'⟩ := r
    simp only [isAscending, Bool.and_eq_true, decide_eq_true_eq] at h
    intro r hr
    rcases List.mem_cons.1 hr with rfl | hr
    · exact Nat.le_refl _
    · have := ih h.2 r hr
      omega

/-- The tail of an ascending table ascends. -/
theorem isAscending_of_cons {r : Nat × Nat} {rest : Ranges}
    (h : isAscending (r :: rest) = true) : isAscending rest = true := by
  cases rest with
  | nil => rfl
  | cons r' rest =>
    simp only [isAscending, Bool.and_eq_true] at h
    exact h.2

/-- A look-up in an ascending table answers whether the number is in one of the ranges. -/
theorem contains_iff {ranges : Ranges} (h : ranges.isAscending = true) (n : Nat) :
    ranges.contains n = true ↔ ∃ r ∈ ranges, r.1 ≤ n ∧ n ≤ r.2 := by
  induction ranges with
  | nil => simp [contains]
  | cons r rest ih =>
    obtain ⟨first, last⟩ := r
    have hfirst := first_le_of_isAscending h
    have ih := ih (isAscending_of_cons h)
    simp only [contains, Bool.and_eq_true, Bool.or_eq_true, decide_eq_true_eq, ih,
      List.mem_cons, or_and_right, exists_or, exists_eq_left]
    constructor
    · rintro ⟨h1, h2 | h2⟩
      · exact .inl ⟨h1, h2⟩
      · exact .inr h2
    · rintro (⟨h1, h2⟩ | ⟨r, hr, h1, h2⟩)
      · exact ⟨h1, .inl h2⟩
      · have := hfirst r (List.mem_cons_of_mem _ hr)
        exact ⟨by omega, .inr ⟨r, hr, h1, h2⟩⟩

end Ranges

end OpenAddressing.Text
