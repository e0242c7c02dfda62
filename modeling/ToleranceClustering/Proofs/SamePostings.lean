import ToleranceClustering.Proofs.ExactLaws
import ToleranceClustering.Proofs.ToleranceRelation

/-!
# Threshold one

Without rounding, two counts reach a similarity of one only where the documents that hold both terms are all there are:
all of either term by the smaller count, and all of both by the other measures (`one_le_measure_iff`). So at threshold
one the terms of a class are held by the same documents, and the classes partition the vocabulary; by the smaller count
terms tolerate each other when the documents of one hold the other as well (`classes_at_threshold_one`).
-/

namespace ToleranceClustering

/-! ## Counts -/

namespace Similarity

/-- Two numbers whose product is at most a square that neither is below are its root. -/
theorem eq_of_mul_le_sq {s a b : ℝ} (hpos : 0 < s) (ha : s ≤ a) (hb : s ≤ b) (h : a * b ≤ s ^ 2) : s = a ∧ s = b := by
  have hleft : a * s ≤ s * s := (mul_le_mul_of_nonneg_left hb (hpos.le.trans ha)).trans (h.trans_eq (sq s))
  have hright : s * b ≤ s * s := (mul_le_mul_of_nonneg_right ha (hpos.le.trans hb)).trans (h.trans_eq (sq s))
  exact ⟨le_antisymm ha (le_of_mul_le_mul_right hleft hpos), le_antisymm hb (le_of_mul_le_mul_left hright hpos)⟩

/-- A divisor other than the smaller count is the shared count only if both counts are. -/
theorem divisor_le_shared_iff {m : Similarity} (hm : m ≠ minimum) {shared a b : ℝ} (hpos : 0 < shared)
    (ha : shared ≤ a) (hb : shared ≤ b) : m.divisor shared a b ≤ shared ↔ shared = a ∧ shared = b := by
  constructor
  · intro h
    -- the geometric mean is the smallest of these divisors
    have hstrict : m.strictness ≤ geometricMean.strictness := by
      cases m with
      | minimum => exact absurd rfl hm
      | geometricMean | harmonicMean | jaccard => decide
    have hroot : √(a * b) ≤ shared := (divisor_le_divisor hstrict hpos ha hb).trans h
    exact eq_of_mul_le_sq hpos ha hb (Real.sqrt_le_left hpos.le |>.1 hroot)
  · rintro ⟨rfl, rfl⟩
    cases m with
    | geometricMean => exact (Real.sqrt_mul_self hpos.le).le
    | minimum => exact absurd rfl hm
    | harmonicMean => exact (add_self_div_two shared).le
    | jaccard => exact (add_sub_cancel_right shared shared).le

/-- Counts reach a similarity of one when the divisor is no more than the shared count. -/
theorem one_le_measure_iff_divisor (m : Similarity) {shared a b : Nat} (hpos : 0 < shared) (ha : shared ≤ a)
    (hb : shared ≤ b) : (1 : Exact) ≤ m.measure shared a b ↔ m.divisor shared a b ≤ shared := by
  have hdivisor : (0 : ℝ) < m.divisor shared a b :=
    (Nat.cast_pos.2 hpos).trans_le (m.shared_le_divisor (Nat.cast_pos.2 hpos) (Nat.cast_le.2 ha) (Nat.cast_le.2 hb))
  rw [Exact.le_iff, m.measure_value hpos ha hb, Exact.one_value, one_le_div hdivisor]

/-- By a measure other than the smaller count, the similarity is one if both counts are shared ones. -/
theorem one_le_measure_iff {m : Similarity} (hm : m ≠ minimum) {shared a b : Nat} (hpos : 0 < shared) (ha : shared ≤ a)
    (hb : shared ≤ b) : (1 : Exact) ≤ m.measure shared a b ↔ shared = a ∧ shared = b := by
  rw [m.one_le_measure_iff_divisor hpos ha hb,
    divisor_le_shared_iff hm (Nat.cast_pos.2 hpos) (Nat.cast_le.2 ha) (Nat.cast_le.2 hb), Nat.cast_inj, Nat.cast_inj]

/-- By the smaller count, the similarity is one if one of the counts is a shared one. -/
theorem one_le_minimum_iff {shared a b : Nat} (hpos : 0 < shared) (ha : shared ≤ a) (hb : shared ≤ b) :
    (1 : Exact) ≤ minimum.measure shared a b ↔ shared = a ∨ shared = b := by
  rw [minimum.one_le_measure_iff_divisor hpos ha hb, divisor, min_le_iff, Nat.cast_le, Nat.cast_le]
  omega

end Similarity

/-! ## Documents -/

namespace Corpus

section Holders

variable {α : Type} [Scalar α] (c : Corpus α) {a b : TermId}

/-- As many documents hold both terms as hold the first, if all of these hold the second. -/
theorem jointHolders_eq_length_left : c.jointHolders a b = (c.holders a).length ↔ c.holders a ⊆ c.holders b := by
  rw [jointHolders_eq_countP, List.countP_eq_length]
  refine forall₂_congr ?_
  intro pos hpos
  rw [mem_holders, and_iff_right (c.mem_holders.1 hpos).1]

theorem jointHolders_eq_length_right : c.jointHolders a b = (c.holders b).length ↔ c.holders b ⊆ c.holders a := by
  rw [jointHolders_comm, jointHolders_eq_length_left]

/-- The same documents hold two terms if those of each hold the other. -/
theorem holders_eq_iff : c.holders a = c.holders b ↔ c.holders a ⊆ c.holders b ∧ c.holders b ⊆ c.holders a := by
  constructor
  · intro h
    rw [h]
    exact ⟨List.Subset.refl _, List.Subset.refl _⟩
  · rintro ⟨hab, hba⟩
    exact Ascending.ext (c.ascending_holders a) (c.ascending_holders b) fun pos => ⟨@hab pos, @hba pos⟩

/-- A term of the vocabulary occurs together with any term that all its documents hold. -/
theorem jointHolders_pos_of_subset (ha : a ∈ c.vocabulary) (h : c.holders a ⊆ c.holders b) :
    0 < c.jointHolders a b := by
  obtain ⟨pos, hpos, hcontains⟩ := c.mem_vocabulary.1 ha
  rw [c.jointHolders_eq_length_left.2 h]
  exact List.length_pos_of_mem (c.mem_holders.2 ⟨hpos, hcontains⟩)

/-- What similarity comes to, among terms that occur together, tolerance comes to among all. -/
theorem tolerant_iff_of_similar {τ : α} {f : Measure α} {P : Prop} (ha : a ∈ c.vocabulary) (hself : a = b → P)
    (hjoint : P → 0 < c.jointHolders a b) (h : 0 < c.jointHolders a b → (τ ≤ c.similarity f a b ↔ P)) :
    c.Tolerant τ f a b ↔ P := by
  constructor
  · rintro (⟨hab, -⟩ | ⟨-, hpos, hle⟩)
    · exact hself hab
    · exact (h hpos).1 hle
  · intro hP
    by_cases hab : a = b
    · exact Or.inl ⟨hab, ha⟩
    · exact Or.inr ⟨hab, hjoint hP, (h (hjoint hP)).2 hP⟩

end Holders

variable (c : Corpus Exact) {a b : TermId}

theorem similarity_eq_measure (m : Similarity) (a b : TermId) :
    c.similarity m.measure a b = m.measure (c.jointHolders a b) (c.holders a).length (c.holders b).length := by
  unfold similarity
  split
  · rfl
  · rw [Similarity.measure_comm]

/-- At threshold one, by a measure other than the smaller count, a term tolerates the terms that the same documents
hold. -/
theorem tolerant_one_iff {m : Similarity} (hm : m ≠ .minimum) (ha : a ∈ c.vocabulary) :
    c.Tolerant 1 m.measure a b ↔ c.holders a = c.holders b := by
  obtain ⟨hleft, hright⟩ := c.jointHolders_le a b
  refine c.tolerant_iff_of_similar ha (congrArg c.holders) ?_ ?_
  · intro h
    exact c.jointHolders_pos_of_subset ha (c.holders_eq_iff.1 h).1
  · intro hpos
    rw [similarity_eq_measure, Similarity.one_le_measure_iff hm hpos hleft hright, jointHolders_eq_length_left,
      jointHolders_eq_length_right, holders_eq_iff]

/-- At threshold one, by the smaller count, terms tolerate each other if all documents of one hold the other. -/
theorem tolerant_one_minimum_iff (ha : a ∈ c.vocabulary) (hb : b ∈ c.vocabulary) :
    c.Tolerant 1 Similarity.minimum.measure a b ↔ c.holders a ⊆ c.holders b ∨ c.holders b ⊆ c.holders a := by
  obtain ⟨hleft, hright⟩ := c.jointHolders_le a b
  refine c.tolerant_iff_of_similar ha ?_ ?_ ?_
  · rintro rfl
    exact Or.inl (List.Subset.refl _)
  · rintro (h | h)
    · exact c.jointHolders_pos_of_subset ha h
    · rw [jointHolders_comm]
      exact c.jointHolders_pos_of_subset hb h
  · intro hpos
    rw [similarity_eq_measure, Similarity.one_le_minimum_iff hpos hleft hright, jointHolders_eq_length_left,
      jointHolders_eq_length_right]

end Corpus

/-! ## Classes -/

namespace ToleranceSpace

/-- A space that relates the terms with the same postings: this is an equivalence, and its classes partition the
vocabulary. -/
structure RelatesSamePostings {α : Type} [Scalar α] (c : Corpus α) (s : ToleranceSpace α) : Prop where
  tolerant : ∀ a ∈ c.vocabulary, ∀ b, s.tolerant a b = true ↔ s.postings a = s.postings b
  classes : ∀ a ∈ c.vocabulary, ∃ cls, s.class? a = some cls ∧ ∀ b, b ∈ cls.members ↔ s.postings b = s.postings a
  equivalence : Equivalence fun a b : { t // t ∈ c.vocabulary } => s.tolerant a b = true
  within : ∀ cls ∈ s.allClasses, cls.members ≠ [] ∧ ∀ t ∈ cls.members, t ∈ c.vocabulary
  partition : ∀ a ∈ c.vocabulary, ∃! members, members ∈ s.allClasses.map ToleranceClass.members ∧ a ∈ members

section Partition

variable {α : Type} [Scalar α] {c : Corpus α} {τ : α} {f : Measure α} {s : ToleranceSpace α}

/-- Where terms tolerate each other as their postings are the same, the classes partition the vocabulary. -/
theorem relatesSamePostings_of_tolerant (h : build c τ f = .ok s)
    (hsame : ∀ a ∈ c.vocabulary, ∀ b, c.Tolerant τ f a b ↔ c.holders a = c.holders b) : RelatesSamePostings c s where
  tolerant := by
    intro a ha b
    rw [tolerant_iff h, hsame a ha, postings_eq_holders h, postings_eq_holders h]
  classes := by
    intro a ha
    obtain ⟨cls, hcls, -, -, hmem⟩ := class?_spec h ha
    refine ⟨cls, hcls, ?_⟩
    intro b
    rw [hmem, hsame a ha, postings_eq_holders h, postings_eq_holders h, eq_comm]
  equivalence := by
    have htolerant : ∀ a b : { t // t ∈ c.vocabulary }, s.tolerant a b = true ↔ c.holders a = c.holders b :=
      fun a b => (tolerant_iff h a b).trans (hsame a a.2 b)
    simp only [htolerant]
    exact ⟨fun _ => rfl, Eq.symm, Eq.trans⟩
  within := by
    intro cls hcls
    obtain ⟨a, ha, hcls⟩ := (mem_allClasses h).1 hcls
    obtain ⟨_, he, -, -, hmem⟩ := class?_spec h ha
    obtain rfl := Option.some.inj (hcls.symm.trans he)
    refine ⟨List.ne_nil_of_mem ((hmem a).2 (Or.inl ⟨rfl, ha⟩)), ?_⟩
    intro t ht
    exact (mem_vocabulary_of_tolerant ((hmem t).1 ht)).2
  partition := by
    intro a ha
    obtain ⟨cls, hcls, -, hasc, hmem⟩ := class?_spec h ha
    refine ⟨cls.members, ⟨List.mem_map_of_mem ((mem_allClasses h).2 ⟨a, ha, hcls⟩), (hmem a).2 (Or.inl ⟨rfl, ha⟩)⟩, ?_⟩
    rintro members ⟨hmembers, haIn⟩
    obtain ⟨other, hother, rfl⟩ := List.mem_map.1 hmembers
    obtain ⟨b, hb, hother⟩ := (mem_allClasses h).1 hother
    obtain ⟨_, he, -, hasc', hmem'⟩ := class?_spec h hb
    obtain rfl := Option.some.inj (hother.symm.trans he)
    -- a term of two classes has the postings of both
    have hba := (hsame b hb a).1 ((hmem' a).1 haIn)
    refine Ascending.ext hasc' hasc ?_
    intro t
    rw [hmem', hmem, hsame b hb, hsame a ha, hba]

end Partition

/-- Without rounding, the space of a corpus at threshold one relates the terms with the same postings, by every built-in
measure but the smaller count. By this one, two terms tolerate each other if the postings of one contain the other's. -/
theorem classes_at_threshold_one (c : Corpus Exact) :
    (∀ m : Similarity, m ≠ .minimum → ∃ s, build c 1 m.measure = .ok s ∧ RelatesSamePostings c s) ∧
      ∃ s, build c 1 Similarity.minimum.measure = .ok s ∧ ∀ a ∈ c.vocabulary, ∀ b ∈ c.vocabulary,
        (s.tolerant a b = true ↔ s.postings a ⊆ s.postings b ∨ s.postings b ⊆ s.postings a) := by
  have hτ : Scalar.withinAbove 0 1 (1 : Exact) = true := by
    rw [Scalar.withinAbove, decide_eq_true Scalar.Ordered.zero_lt_one, decide_eq_true Scalar.one_le_one]
    rfl
  constructor
  · intro m hm
    obtain ⟨s, hs⟩ := exists_build c hτ m.measure
    exact ⟨s, hs, relatesSamePostings_of_tolerant hs fun a ha b => c.tolerant_one_iff hm ha⟩
  · obtain ⟨s, hs⟩ := exists_build c hτ Similarity.minimum.measure
    refine ⟨s, hs, ?_⟩
    intro a ha b hb
    rw [tolerant_iff hs, c.tolerant_one_minimum_iff ha hb, postings_eq_holders hs, postings_eq_holders hs]

/-- A receipt with three terms, and one with the first two of them. -/
noncomputable def twoReceipts : Corpus Exact :=
  ⟨#[⟨0, ones (List.range 3) (Ascending.ascending_range 3)⟩, ⟨1, ones (List.range 2) (Ascending.ascending_range 2)⟩]⟩

/-- At threshold one the first two terms of the receipts tolerate each other, and the third one by the smaller count only. -/
theorem classes_of_two_receipts : Similarity.jaccard ≠ .minimum ∧
    (∃ s, build twoReceipts 1 Similarity.jaccard.measure = .ok s ∧ s.tolerant 0 1 = true ∧ s.tolerant 0 2 = false) ∧
      ∃ s, build twoReceipts 1 Similarity.minimum.measure = .ok s ∧ s.tolerant 0 2 = true := by
  have hne : Similarity.jaccard ≠ .minimum := by decide
  have hknown : ∀ t < 3, t ∈ twoReceipts.vocabulary := by
    intro t ht
    refine twoReceipts.mem_vocabulary.2 ⟨0, (show 0 < 2 by decide), ?_⟩
    interval_cases t <;> rfl
  obtain ⟨hsame, s, hs, hminimum⟩ := classes_at_threshold_one twoReceipts
  obtain ⟨s', hs', hrelates⟩ := hsame .jaccard hne
  refine ⟨hne, ⟨s', hs', ?_, ?_⟩, s, hs, ?_⟩
  · rw [hrelates.tolerant 0 (hknown 0 (by decide)), postings_eq_holders hs', postings_eq_holders hs']
    rfl
  · rw [Bool.eq_false_iff, Ne, hrelates.tolerant 0 (hknown 0 (by decide)), postings_eq_holders hs',
      postings_eq_holders hs']
    exact (show ¬[0, 1] = [0] by decide)
  · rw [hminimum 0 (hknown 0 (by decide)) 2 (hknown 2 (by decide)), postings_eq_holders hs, postings_eq_holders hs]
    exact Or.inr (show [0] ⊆ [0, 1] by decide)

end ToleranceSpace

end ToleranceClustering
