import Mathlib
import ToleranceClustering.Proofs.LowerThresholds
import ToleranceClustering.Similarity

/-!
# The built-in measures without rounding

Over the real numbers (`Exact`) every built-in measure is the shared count divided by a mean of the two counts
(`divisor`), and the means are ordered (`divisor_le_divisor`): the smaller count, the geometric mean, half the sum, and
the number of documents that hold either. So the measures are nested the other way round, between zero and one, and so
are the classes of the spaces built with them (`builtin_measures_nest`).
-/

namespace ToleranceClustering

/-- A real number, to compute with instead of a rounded one. -/
@[ext]
structure Exact where
  value : ℝ

namespace Exact

noncomputable instance : Scalar Exact where
  zero := ⟨0⟩
  one := ⟨1⟩
  natCast n := ⟨n⟩
  add x y := ⟨x.value + y.value⟩
  sub x y := ⟨x.value - y.value⟩
  mul x y := ⟨x.value * y.value⟩
  div x y := ⟨x.value / y.value⟩
  lt x y := x.value < y.value
  le x y := x.value ≤ y.value
  decidableLT x y := Real.decidableLT x.value y.value
  decidableLE x y := Real.decidableLE x.value y.value
  sqrt x := ⟨√x.value⟩
  log x := ⟨Real.log x.value⟩
  isFinite _ := true
  order x y := compare x.value y.value

theorem min_value (x y : Exact) : (Scalar.min x y).value = min x.value y.value := by
  unfold Scalar.min
  split
  · rename_i h
    exact (min_eq_left (le_of_lt h)).symm
  · rename_i h
    exact (min_eq_right (not_lt.1 h)).symm

end Exact

namespace Similarity

/-! ## Divisors -/

/-- What the shared count is divided by: a mean of two counts, or the number of documents that hold either term. -/
noncomputable def divisor (m : Similarity) (shared a b : ℝ) : ℝ :=
  match m with
  | geometricMean => √(a * b)
  | minimum => min a b
  | harmonicMean => (a + b) / (2 : ℕ)
  | jaccard => a + b - shared

theorem divisor_comm (m : Similarity) (shared a b : ℝ) : m.divisor shared a b = m.divisor shared b a := by
  cases m with
  | geometricMean => exact congrArg Real.sqrt (mul_comm a b)
  | minimum => exact min_comm a b
  | harmonicMean => exact congrArg (· / ((2 : ℕ) : ℝ)) (add_comm a b)
  | jaccard => exact congrArg (· - shared) (add_comm a b)

/-- The measures from the strictest to the one that relates most. -/
def strictness : Similarity → Nat
  | jaccard => 0
  | harmonicMean => 1
  | geometricMean => 2
  | minimum => 3

theorem min_le_sqrt_mul {a b : ℝ} (ha : 0 < a) (hb : 0 < b) : min a b ≤ √(a * b) := by
  have hmin : 0 ≤ min a b := le_min ha.le hb.le
  refine Real.le_sqrt_of_sq_le ?_
  calc min a b ^ 2 = min a b * min a b := sq _
    _ ≤ a * b := mul_le_mul (min_le_left a b) (min_le_right a b) hmin ha.le

theorem sqrt_mul_le_half_sum {a b : ℝ} (ha : 0 < a) (hb : 0 < b) : √(a * b) ≤ (a + b) / 2 := by
  refine Real.sqrt_le_iff.2 ⟨by positivity, ?_⟩
  have hsquare := sq_nonneg (a - b)
  linarith

/-- Stricter measures divide by more. -/
theorem divisor_le_divisor {m n : Similarity} (h : m.strictness ≤ n.strictness) {shared a b : ℝ} (hpos : 0 < shared)
    (ha : shared ≤ a) (hb : shared ≤ b) : n.divisor shared a b ≤ m.divisor shared a b := by
  have h₁ := min_le_sqrt_mul (hpos.trans_le ha) (hpos.trans_le hb)
  have h₂ := sqrt_mul_le_half_sum (hpos.trans_le ha) (hpos.trans_le hb)
  have h₃ : (a + b) / 2 ≤ a + b - shared := by linarith
  -- the four divisors stand in a row, and these three steps lead from each to the next
  cases m <;> cases n <;> simp only [strictness] at h <;> simp only [divisor, Nat.cast_ofNat] <;> linarith

/-- No divisor is below the shared count. -/
theorem shared_le_divisor (m : Similarity) {shared a b : ℝ} (hpos : 0 < shared) (ha : shared ≤ a) (hb : shared ≤ b) :
    shared ≤ m.divisor shared a b := by
  have hmin : minimum.divisor shared a b ≤ m.divisor shared a b :=
    divisor_le_divisor (by cases m <;> decide) hpos ha hb
  exact (le_min ha hb).trans hmin

/-! ## Values -/

/-- The quotient of a measure has the divisor below. -/
theorem quotient_value (m : Similarity) (shared a b : Exact) :
    (m.quotient shared a b).value = shared.value / m.divisor shared.value a.value b.value := by
  cases m with
  | geometricMean => rfl
  | minimum => exact congrArg (shared.value / ·) (Exact.min_value a b)
  | harmonicMean =>
    show ((2 : ℕ) : ℝ) * shared.value / (a.value + b.value) = shared.value / ((a.value + b.value) / (2 : ℕ))
    rw [div_div_eq_mul_div, mul_comm]
  | jaccard => rfl

/-- A shared count is a share of any divisor. -/
theorem share_mem_unit (m : Similarity) {shared a b : Nat} (hpos : 0 < shared) (ha : shared ≤ a) (hb : shared ≤ b) :
    0 ≤ (shared : ℝ) / m.divisor shared a b ∧ (shared : ℝ) / m.divisor shared a b ≤ 1 := by
  have hs : (0 : ℝ) < shared := by exact_mod_cast hpos
  have hle : (shared : ℝ) ≤ m.divisor shared a b :=
    m.shared_le_divisor hs (by exact_mod_cast ha) (by exact_mod_cast hb)
  exact ⟨div_nonneg hs.le (hs.le.trans hle), (div_le_one (hs.trans_le hle)).2 hle⟩

/-- The value of a measure where something is shared: it never has to be cut off. -/
theorem measure_value (m : Similarity) {shared a b : Nat} (hpos : 0 < shared) (ha : shared ≤ a) (hb : shared ≤ b) :
    (m.measure shared a b : Exact).value = shared / m.divisor shared a b := by
  have hne : ¬(shared = 0 ∨ a = 0 ∨ b = 0) := by omega
  have hmeasure : (m.measure shared a b : Exact) = Scalar.min (m.quotient (shared : Exact) (a : Exact) (b : Exact)) 1 :=
    if_neg hne
  rw [hmeasure, Exact.min_value, quotient_value]
  exact min_eq_left (m.share_mem_unit hpos ha hb).2

theorem measure_of_apart (m : Similarity) (a b : Nat) : (m.measure 0 a b : Exact) = 0 := if_pos (Or.inl rfl)

/-- Every measure lies between zero and one. -/
theorem measure_mem_unit (m : Similarity) {shared a b : Nat} (ha : shared ≤ a) (hb : shared ≤ b) :
    (0 : Exact) ≤ m.measure shared a b ∧ (m.measure shared a b : Exact) ≤ 1 := by
  rcases Nat.eq_zero_or_pos shared with rfl | hpos
  · rw [measure_of_apart]
    exact ⟨le_refl (0 : ℝ), zero_le_one' ℝ⟩
  · have hvalue := m.measure_value hpos ha hb
    obtain ⟨hnonneg, hone⟩ := m.share_mem_unit hpos ha hb
    exact ⟨hnonneg.trans_eq hvalue.symm, hvalue.trans_le hone⟩

/-- Stricter measures are smaller. -/
theorem measure_le_measure {m n : Similarity} (h : m.strictness ≤ n.strictness) {shared a b : Nat} (ha : shared ≤ a)
    (hb : shared ≤ b) : (m.measure shared a b : Exact) ≤ n.measure shared a b := by
  rcases Nat.eq_zero_or_pos shared with rfl | hpos
  · rw [measure_of_apart, measure_of_apart]
    exact le_refl (0 : ℝ)
  · have hs : (0 : ℝ) < shared := by exact_mod_cast hpos
    have ha' : (shared : ℝ) ≤ a := by exact_mod_cast ha
    have hb' : (shared : ℝ) ≤ b := by exact_mod_cast hb
    have hquotients := div_le_div_of_nonneg_left hs.le (hs.trans_le (n.shared_le_divisor hs ha' hb'))
      (divisor_le_divisor h hs ha' hb')
    exact ((m.measure_value hpos ha hb).trans_le hquotients).trans_eq (n.measure_value hpos ha hb).symm

theorem measure_comm (m : Similarity) (shared a b : Nat) :
    (m.measure shared a b : Exact) = m.measure shared b a := by
  have hquotient : ∀ x y z : Exact, m.quotient x y z = m.quotient x z y := by
    intro x y z
    ext
    rw [quotient_value, quotient_value, divisor_comm]
  unfold measure
  rw [hquotient]
  exact if_congr (or_congr_right or_comm) rfl rfl

end Similarity

/-! ## Spaces -/

namespace Corpus

/-- Documents that hold two terms hold each of them. -/
theorem jointHolders_le {α : Type} [Scalar α] (c : Corpus α) (a b : TermId) :
    c.jointHolders a b ≤ (c.holders a).length ∧ c.jointHolders a b ≤ (c.holders b).length := by
  have hleft : ∀ pos, ((c.vector pos).contains a && (c.vector pos).contains b) ≤ (c.vector pos).contains a :=
    fun pos => Bool.and_le_left _ _
  have hright : ∀ pos, ((c.vector pos).contains a && (c.vector pos).contains b) ≤ (c.vector pos).contains b :=
    fun pos => Bool.and_le_right _ _
  exact ⟨(List.monotone_filter_right _ hleft).length_le, (List.monotone_filter_right _ hright).length_le⟩

variable (c : Corpus Exact) (a b : TermId)

theorem similarity_mem_unit (m : Similarity) : 0 ≤ c.similarity m.measure a b ∧ c.similarity m.measure a b ≤ 1 := by
  obtain ⟨ha, hb⟩ := c.jointHolders_le a b
  unfold similarity
  split
  · exact m.measure_mem_unit ha hb
  · exact m.measure_mem_unit hb ha

theorem similarity_le_similarity {m n : Similarity} (h : m.strictness ≤ n.strictness) :
    c.similarity m.measure a b ≤ c.similarity n.measure a b := by
  obtain ⟨ha, hb⟩ := c.jointHolders_le a b
  unfold similarity
  split
  · exact Similarity.measure_le_measure h ha hb
  · exact Similarity.measure_le_measure h hb ha

end Corpus

namespace ToleranceSpace

open Similarity

variable {c : Corpus Exact} {τ : Exact}

/-- The space of a stricter measure is finer. -/
theorem refines_of_stricter {m n : Similarity} (hmn : m.strictness ≤ n.strictness) {s wider : ToleranceSpace Exact}
    (h : build c τ m.measure = .ok s) (h' : build c τ n.measure = .ok wider) : s.Refines wider := by
  refine refines_of_tolerant h h' ?_
  intro a b hab
  refine hab.imp_right ?_
  rintro ⟨hne, hjoint, hle⟩
  exact ⟨hne, hjoint, (show τ.value ≤ _ from hle).trans (c.similarity_le_similarity a b hmn)⟩

/-- The built-in measures of counts are nested between zero and one and do not depend on the order of the terms. At any
threshold above zero and at most one, the spaces of a corpus built with them are nested in the same way, and every
stored similarity lies between the threshold and one. -/
theorem builtin_measures_nest :
    (∀ shared a b : Nat, shared ≤ a → shared ≤ b → (0 : Exact) ≤ jaccard.measure shared a b ∧
      (jaccard.measure shared a b : Exact) ≤ harmonicMean.measure shared a b ∧
      (harmonicMean.measure shared a b : Exact) ≤ geometricMean.measure shared a b ∧
      (geometricMean.measure shared a b : Exact) ≤ minimum.measure shared a b ∧
      (minimum.measure shared a b : Exact) ≤ 1) ∧
    (∀ (m : Similarity) (shared a b : Nat), (m.measure shared a b : Exact) = m.measure shared b a) ∧
    ∀ (c : Corpus Exact) (τ : Exact), 0 < τ → τ ≤ 1 → ∃ spaceOf : Similarity → ToleranceSpace Exact,
      (∀ m, build c τ m.measure = .ok (spaceOf m)) ∧ (spaceOf jaccard).Refines (spaceOf harmonicMean) ∧
      (spaceOf harmonicMean).Refines (spaceOf geometricMean) ∧ (spaceOf geometricMean).Refines (spaceOf minimum) ∧
      ∀ m a b x, (a, b, x) ∈ (spaceOf m).edges → τ ≤ x ∧ x ≤ 1 := by
  refine ⟨?_, measure_comm, ?_⟩
  · intro shared a b ha hb
    have hle : ∀ {m n : Similarity}, m.strictness ≤ n.strictness →
        (m.measure shared a b : Exact) ≤ n.measure shared a b := fun h => measure_le_measure h ha hb
    exact ⟨(jaccard.measure_mem_unit ha hb).1, hle (by decide), hle (by decide), hle (by decide),
      (minimum.measure_mem_unit ha hb).2⟩
  · intro c τ hpos hone
    have hτ : Scalar.withinAbove 0 1 τ = true := by
      rw [Scalar.withinAbove, decide_eq_true hpos, decide_eq_true hone]
      rfl
    choose spaceOf hspace using fun m : Similarity => exists_build c hτ m.measure
    refine ⟨spaceOf, hspace, ?_, ?_, ?_, ?_⟩
    · exact refines_of_stricter (by decide) (hspace jaccard) (hspace harmonicMean)
    · exact refines_of_stricter (by decide) (hspace harmonicMean) (hspace geometricMean)
    · exact refines_of_stricter (by decide) (hspace geometricMean) (hspace minimum)
    · intro m a b x hx
      obtain ⟨hlt, htolerant, rfl⟩ := (mem_edges (hspace m) a b x).1 hx
      refine ⟨?_, (c.similarity_mem_unit a b m).2⟩
      rcases htolerant with ⟨rfl, -⟩ | ⟨-, -, hle⟩
      · exact absurd hlt (Nat.lt_irrefl a)
      · exact hle

/-- The vector with weight one at some terms. -/
noncomputable def ones (ts : List TermId) (h : Ascending ts) : TermVector Exact where
  weights := ⟨ts.map fun t => (t, 1), by simpa [Function.comp_def] using h⟩
  positive := by
    intro e he
    obtain ⟨t, -, rfl⟩ := List.mem_map.1 he
    exact ⟨zero_lt_one' ℝ, rfl⟩

/-- A note with two terms, and one with the first of them. -/
noncomputable def twoNotes : Corpus Exact :=
  ⟨#[⟨0, ones [0, 1] (by simp [Ascending])⟩, ⟨1, ones [0] (by simp [Ascending])⟩]⟩

/-- At threshold one the terms of the two notes tolerate each other by the smaller count, and not by Jaccard. -/
theorem measures_nest_over_two_notes : (0 : Exact) < 1 ∧ (1 : Exact) ≤ 1 ∧
    ∃ spaceOf : Similarity → ToleranceSpace Exact, (∀ m, build twoNotes 1 m.measure = .ok (spaceOf m)) ∧
      (spaceOf jaccard).Refines (spaceOf harmonicMean) ∧ (spaceOf jaccard).tolerant 0 1 = false ∧
      (spaceOf minimum).tolerant 0 1 = true := by
  have hpos : (0 : Exact) < 1 := zero_lt_one' ℝ
  have hone : (1 : Exact) ≤ 1 := le_refl (1 : ℝ)
  obtain ⟨spaceOf, hspace, hrefines, -⟩ := builtin_measures_nest.2.2 twoNotes 1 hpos hone
  have hcounts : ∀ f : Measure Exact, twoNotes.similarity f 0 1 = f 1 2 1 := fun _ => rfl
  have hvalue : ∀ m : Similarity, (m.measure 1 2 1 : Exact).value = ((1 : ℕ) : ℝ) / m.divisor (1 : ℕ) (2 : ℕ) (1 : ℕ) :=
    fun m => m.measure_value (by decide) (by decide) (by decide)
  refine ⟨hpos, hone, spaceOf, hspace, hrefines, ?_, ?_⟩
  · rw [Bool.eq_false_iff, Ne, tolerant_iff (hspace jaccard)]
    rintro (⟨he, -⟩ | ⟨-, -, hle⟩)
    · exact absurd he (by decide)
    · rw [hcounts] at hle
      have hhalf := (show (1 : ℝ) ≤ _ from hle).trans_eq (hvalue jaccard)
      norm_num [divisor] at hhalf
  · rw [tolerant_iff (hspace minimum)]
    refine Or.inr ⟨by decide, (show 0 < 1 by decide), ?_⟩
    rw [hcounts]
    refine (show (1 : ℝ) ≤ _ from ?_).trans_eq (hvalue minimum).symm
    norm_num [divisor]

end ToleranceSpace

end ToleranceClustering
