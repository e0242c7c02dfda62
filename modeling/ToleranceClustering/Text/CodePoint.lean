/-!
# Code point ranges

Properties of characters are kept as tables: closed ranges of code points, ascending and apart.
-/

namespace ToleranceClustering.Text

/-- Whether `n` lies in one of the ranges, which are ascending. -/
def inRanges (n : Nat) : List (Nat × Nat) → Bool
  | [] => false
  | r :: rs => if n < r.1 then false else if n ≤ r.2 then true else inRanges n rs

/-- Whether the ranges are ascending and apart. -/
def apart : List (Nat × Nat) → Bool
  | [] => true
  | [r] => r.1 ≤ r.2
  | r :: s :: rs => r.1 ≤ r.2 && r.2 < s.1 && apart (s :: rs)

/-- In ranges that are ascending and apart, every range counts. -/
theorem inRanges_eq_any {n : Nat} {rs : List (Nat × Nat)} (h : apart rs = true) :
    inRanges n rs = rs.any fun r => decide (r.1 ≤ n) && decide (n ≤ r.2) := by
  induction rs with
  | nil => rfl
  | cons r rs ih =>
    have tail : apart rs = true := by
      cases rs with
      | nil => rfl
      | cons s rs =>
        simp only [apart, Bool.and_eq_true] at h
        exact h.2
    have later : ∀ s ∈ rs, n < r.1 → n < s.1 := by
      clear ih tail
      induction rs generalizing r with
      | nil => exact fun _ hs => nomatch hs
      | cons s rs ih =>
        simp only [apart, Bool.and_eq_true, decide_eq_true_eq] at h
        intro u hu hn
        rcases List.mem_cons.1 hu with rfl | hu
        · omega
        · exact ih s h.2 u hu (by omega)
    rw [List.any_cons, ← ih tail, inRanges]
    split
    · rename_i hn
      rw [ih tail]
      have : (rs.any fun r => decide (r.1 ≤ n) && decide (n ≤ r.2)) = false := by
        rw [List.any_eq_false]
        intro s hs
        have := later s hs hn
        simp only [Bool.and_eq_true, decide_eq_true_eq]
        omega
      rw [this]
      have : ¬ r.1 ≤ n := by omega
      simp [this]
    · split <;> rename_i h₁ h₂
      · have : r.1 ≤ n := by omega
        simp [this, h₂]
      · simp [h₂]

end ToleranceClustering.Text
