import ToleranceClustering.Proofs.MergeGrowth
import ToleranceClustering.Proofs.ToleranceRelation

/-!
# Lower thresholds

Two spaces of one corpus at different thresholds have the same terms and postings, and the classes at the higher threshold
lie inside those at the lower one (`refines_of_le`). In either space a term set covers no less when it gains terms or the
least membership drops (`growing_of_build`). Together, what a seed covers only grows as either threshold is lowered
(`approximations_grow_as_thresholds_drop`).
-/

namespace ToleranceClustering

theorem ToleranceClass.isSubset_iff {a b : ToleranceClass} : a.isSubset b = true ↔ ∀ t ∈ a.members, t ∈ b.members := by
  rw [isSubset, List.all_eq_true]
  simp only [contains, List.contains_iff_mem]

/-- A clamped number that is positive is at most one. -/
theorem Scalar.clamp_le_one {α : Type} [Scalar α] [Ordered α] {x : α} (h : 0 < clamp 0 1 x) : clamp 0 1 x ≤ 1 := by
  have hx := pos_of_clamp_pos h
  by_cases h₁ : 1 < x
  · rw [clamp_of_gt h₁]
    exact one_le_one
  · rw [clamp_of_between (not_lt_of_le (Ordered.le_of_lt hx)) h₁]
    exact le_of_not_lt (Ordered.right_number (Ordered.le_of_lt hx)) one_le_one h₁

variable {α : Type} [Scalar α]

theorem membership_le_one [Scalar.Ordered α] {v : TermVector α} {ts : List TermId} (h : 0 < membership v ts) :
    membership v ts ≤ 1 := by
  rw [membership_eq] at h ⊢
  split
  · rename_i ht
    rw [if_pos ht] at h
    exact absurd h (Scalar.Ordered.lt_irrefl 0)
  · rename_i ht
    rw [if_neg ht] at h
    exact Scalar.clamp_le_one h

/-- Terms that tolerate each other at a threshold do so at a lower one. -/
theorem Corpus.Tolerant.mono [Scalar.Ordered α] {c : Corpus α} {f : Measure α} {τ τ' : α} (hτ : τ' ≤ τ) {a b : TermId}
    (h : c.Tolerant τ f a b) : c.Tolerant τ' f a b :=
  h.imp_right fun ⟨hne, hjoint, hle⟩ => ⟨hne, hjoint, Scalar.Ordered.le_trans hτ hle⟩

namespace ToleranceSpace

/-- A space is finer than another: it has the same terms and postings, and each class lies inside the other's class of
the same term. -/
structure Refines (s wider : ToleranceSpace α) : Prop where
  terms : s.terms = wider.terms
  postings : ∀ t, s.postings t = wider.postings t
  classes : ∀ t cls, s.class? t = some cls → ∃ cls', wider.class? t = some cls' ∧ cls.isSubset cls' = true
  unknown : ∀ t, s.class? t = none → wider.class? t = none

/-- More terms at a threshold no higher cover no less in the space, and every membership is a positive share. -/
structure Growing (s : ToleranceSpace α) (c : Corpus α) : Prop where
  within : ∀ {ts us : List TermId}, (∀ t ∈ ts, t ∈ us) → ∀ {μ μ' : α}, μ' ≤ μ →
    (s.approximate c ts μ).Within (s.approximate c us μ')
  positive : ∀ ts μ, ∀ m ∈ (s.approximate c ts μ).members, 0 < m.2 ∧ m.2 ≤ 1

variable {c : Corpus α} {f g : Measure α} {τ τ' : α} {s wider : ToleranceSpace α}

/-- A space is finer if terms that tolerate each other in it do so in the other. -/
theorem refines_of_tolerant (h : build c τ f = .ok s) (h' : build c τ' g = .ok wider)
    (hrelated : ∀ a b, c.Tolerant τ f a b → c.Tolerant τ' g a b) : s.Refines wider where
  terms := by rw [(fields_of_build h).1, (fields_of_build h').1]
  postings t := by rw [postings_eq_holders h, postings_eq_holders h']
  classes := by
    intro t cls hcls
    by_cases ht : t ∈ c.vocabulary
    · obtain ⟨_, hnarrow, -, -, hmem⟩ := class?_spec h ht
      obtain ⟨cls', hwide, -, -, hmem'⟩ := class?_spec h' ht
      rw [hcls] at hnarrow
      obtain rfl := Option.some.inj hnarrow
      refine ⟨cls', hwide, ToleranceClass.isSubset_iff.2 fun b hb => ?_⟩
      exact (hmem' b).2 (hrelated t b ((hmem b).1 hb))
    · rw [class?, index?_of_not_mem h ht] at hcls
      cases hcls
  unknown := by
    intro t hnone
    by_cases ht : t ∈ c.vocabulary
    · obtain ⟨cls, hcls, -⟩ := class?_spec h ht
      rw [hcls] at hnone
      cases hnone
    · rw [class?, index?_of_not_mem h' ht]
      rfl

/-- A space at a threshold no lower is finer. -/
theorem refines_of_le [Scalar.Ordered α] (h : build c τ f = .ok s) (h' : build c τ' f = .ok wider) (hτ : τ' ≤ τ) :
    s.Refines wider :=
  refines_of_tolerant h h' fun _ _ hab => hab.mono hτ

/-- The terms that a seed stands for in a finer space are among those it stands for in the other. -/
theorem Refines.classTerms (h : s.Refines wider) (seed : TermId) :
    ∀ t ∈ s.classTerms seed, t ∈ wider.classTerms seed := by
  intro t ht
  unfold ToleranceSpace.classTerms at ht ⊢
  cases hcls : s.class? seed with
  | none =>
    rw [hcls] at ht
    rw [h.unknown seed hcls]
    exact ht
  | some cls =>
    obtain ⟨cls', hcls', hsub⟩ := h.classes seed cls hcls
    rw [hcls] at ht
    rw [hcls']
    exact ToleranceClass.isSubset_iff.1 hsub t ht

section Rounded

variable [Scalar.Rounded α]

theorem growing_of_build (h : build c τ f = .ok s) : s.Growing c where
  within := by
    intro ts us hsub μ μ' hμ
    rw [approximate_eq_approximate h, approximate_eq_approximate h]
    exact c.within_approximate hsub fun _ hx => Scalar.Ordered.le_trans hμ hx
  positive := by
    intro ts μ m hm
    rw [approximate_eq_approximate h] at hm
    obtain ⟨-, ⟨hpos, -⟩, hval⟩ := Corpus.mem_members_approximate.1 hm
    rw [hval]
    exact ⟨hpos, membership_le_one hpos⟩

/-- What the seeds cover in a finer space, they cover at a threshold no higher in the other. -/
theorem Refines.approximateSeeds (hr : s.Refines wider) (h : build c τ f = .ok s) (h' : build c τ' f = .ok wider)
    (seeds : List TermId) {μ μ' : α} (hμ : μ' ≤ μ) :
    List.Forall₂ Approximation.Within (s.approximateSeeds c seeds μ) (wider.approximateSeeds c seeds μ') := by
  unfold ToleranceSpace.approximateSeeds
  rw [List.forall₂_map_left_iff, List.forall₂_map_right_iff, List.forall₂_same]
  intro seed _
  have happrox : s.approximate c (s.classTerms seed) μ = wider.approximate c (s.classTerms seed) μ := by
    rw [approximate_eq_approximate h, approximate_eq_approximate h']
  rw [happrox]
  exact (growing_of_build h').within (hr.classTerms seed) hμ

end Rounded

/-- Two spaces of a corpus over binary64, at thresholds `0 < τ₁ ≤ τ₂ ≤ 1`, for any measure: the second is finer, in both
more terms at a lower least membership cover no less, and what the seeds cover grows as either threshold drops. -/
theorem approximations_grow_as_thresholds_drop (c : Corpus Float) (f : Measure Float) {τ₁ τ₂ : Float} (hpos : 0 < τ₁)
    (hle : τ₁ ≤ τ₂) (hone : τ₂ ≤ 1) :
    ∃ wide narrow, build c τ₁ f = .ok wide ∧ build c τ₂ f = .ok narrow ∧ narrow.Refines wide ∧ wide.Growing c ∧
      narrow.Growing c ∧ ∀ seeds, ∀ μ₁ μ₂ : Float, μ₁ ≤ μ₂ →
        List.Forall₂ Approximation.Within (narrow.approximateSeeds c seeds μ₂) (wide.approximateSeeds c seeds μ₁) := by
  have hrange : ∀ τ : Float, 0 < τ → τ ≤ 1 → Scalar.withinAbove 0 1 τ = true := by
    intro τ h₀ h₁
    rw [Scalar.withinAbove, decide_eq_true h₀, decide_eq_true h₁]
    rfl
  obtain ⟨wide, hwide⟩ := exists_build c (hrange τ₁ hpos (Scalar.Ordered.le_trans hle hone)) f
  obtain ⟨narrow, hnarrow⟩ := exists_build c (hrange τ₂ (Scalar.Ordered.lt_of_lt_of_le hpos hle) hone) f
  have hrefines := refines_of_le hnarrow hwide hle
  refine ⟨wide, narrow, hwide, hnarrow, hrefines, growing_of_build hwide, growing_of_build hnarrow, ?_⟩
  intro seeds μ₁ μ₂ hμ
  exact hrefines.approximateSeeds hnarrow hwide seeds hμ

/-- At one half the two terms of the first document form a class, at one they no longer do. -/
theorem thresholds_drop_over_three_documents :
    (0 : Float) < 0.5 ∧ (0.5 : Float) ≤ 1 ∧ (1 : Float) ≤ 1 ∧
      ∃ wide narrow, build threeDocuments 0.5 firstShare = .ok wide ∧ build threeDocuments 1 firstShare = .ok narrow ∧
        narrow.Refines wide ∧ wide.class? 0 = some ⟨0, [0, 1]⟩ ∧ narrow.class? 0 = some ⟨0, [0]⟩ := by
  have h₀ : (0 : Float) < 0.5 := by decide +kernel
  have hle : (0.5 : Float) ≤ 1 := by decide +kernel
  have h₁ : (1 : Float) ≤ 1 := by decide +kernel
  obtain ⟨wide, narrow, hwide, hnarrow, hrefines, -⟩ :=
    approximations_grow_as_thresholds_drop threeDocuments firstShare h₀ hle h₁
  have hclasses : ∀ τ cls, (build threeDocuments τ firstShare).toOption.bind (fun s => s.class? 0) = some cls →
      ∀ s, build threeDocuments τ firstShare = .ok s → s.class? 0 = some cls := by
    intro τ cls h s hs
    rwa [hs] at h
  refine ⟨h₀, hle, h₁, wide, narrow, hwide, hnarrow, hrefines, ?_, ?_⟩
  · exact hclasses 0.5 _ (by decide +kernel) wide hwide
  · exact hclasses 1 _ (by decide +kernel) narrow hnarrow

end ToleranceSpace

end ToleranceClustering
