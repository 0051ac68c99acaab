/-
# Ranges of code points

A character class is kept as a list of ranges of code points in ascending order.  The main
statement says that a look-up, which stops at the first range that begins beyond the character,
finds exactly the characters that lie in some range.
-/

namespace Lineup.Text

/-- A class of characters as ranges of code points, each with its two ends. -/
abbrev Ranges := List (Nat × Nat)

namespace Ranges

/-- Each range ends where it begins or later, and the next one begins beyond that end. -/
def Ascending : Ranges → Prop
  | [] => True
  | [(lo, hi)] => lo ≤ hi
  | (lo, hi) :: (lo', hi') :: rest => lo ≤ hi ∧ hi < lo' ∧ Ascending ((lo', hi') :: rest)

def decideAscending : (rs : Ranges) → Decidable rs.Ascending
  | [] => .isTrue trivial
  | [(lo, hi)] => inferInstanceAs (Decidable (lo ≤ hi))
  | (lo, hi) :: (lo', hi') :: rest =>
    have := decideAscending ((lo', hi') :: rest)
    inferInstanceAs (Decidable (lo ≤ hi ∧ hi < lo' ∧ Ascending ((lo', hi') :: rest)))

instance : DecidablePred Ascending := decideAscending

/-- Looks a code point up and stops at the first range that begins beyond it. -/
def holds (n : Nat) : Ranges → Bool
  | [] => false
  | (lo, hi) :: rest => decide (lo ≤ n) && (decide (n ≤ hi) || holds n rest)

theorem Ascending.tail {r : Nat × Nat} {rs : Ranges} (h : Ascending (r :: rs)) :
    Ascending rs := by
  cases rs with
  | nil => trivial
  | cons s rs => exact h.2.2

theorem Ascending.le_of_mem {r : Nat × Nat} {rs : Ranges} (h : Ascending (r :: rs)) :
    ∀ s ∈ rs, r.1 ≤ s.1 := by
  induction rs generalizing r with
  | nil => simp
  | cons t rs ih =>
    intro s hs
    have ht : r.1 ≤ t.1 := Nat.le_trans h.1 (Nat.le_of_lt h.2.1)
    rcases List.mem_cons.1 hs with rfl | hs
    · exact ht
    · exact Nat.le_trans ht (ih h.tail s hs)

/-- A look-up in ascending ranges finds the code points that lie in some range, and no others. -/
theorem holds_iff {rs : Ranges} (h : rs.Ascending) (n : Nat) :
    holds n rs = true ↔ ∃ r ∈ rs, r.1 ≤ n ∧ n ≤ r.2 := by
  induction rs with
  | nil => simp [holds]
  | cons r rs ih =>
    have hle := h.le_of_mem
    have := ih h.tail
    simp only [holds, Bool.and_eq_true, Bool.or_eq_true, decide_eq_true_eq, this,
      List.mem_cons, exists_eq_or_imp]
    constructor
    · rintro ⟨h₁, h₂ | h₂⟩
      · exact .inl ⟨h₁, h₂⟩
      · exact .inr h₂
    · rintro (h₁ | ⟨s, hs, h₁, h₂⟩)
      · exact ⟨h₁.1, .inl h₁.2⟩
      · exact ⟨Nat.le_trans (hle s hs) h₁, .inr ⟨s, hs, h₁, h₂⟩⟩

end Ranges

end Lineup.Text
