import ToleranceClustering.Proofs.Binary64.TotalOrder
import ToleranceClustering.Proofs.ExtractionReference
import ToleranceClustering.Proofs.FirstCandidates
import ToleranceClustering.Proofs.ToleranceRelation

/-!
# The selection of seeds

Which terms a seed policy asks for (`Selection`): those in enough, but not too many, documents, and of these the
heaviest, terms of one weight by their numbers. The weight of a term is what all documents give it, one after the other.

A space selects these terms (`selectSeeds_meets_policy`). It adds up only the documents that hold a term, which comes to
the same since weights are positive, and sorts only where there are too many.
-/

namespace ToleranceClustering

open Scalar (Ranked)

/-! ## What a policy asks for -/

namespace Corpus

variable {α : Type} [Scalar α]

/-- The weight of a term over all documents, added up in their order; zero from those without it. -/
def weightOf (c : Corpus α) (t : TermId) : α :=
  Scalar.sum ((List.range c.size).map fun pos => ((c.vector pos).weight? t).getD 0)

/-- The terms in enough documents for a policy, but not in too many, ascending. -/
def eligibleTerms (c : Corpus α) (p : SeedPolicy α) : List TermId :=
  c.vocabulary.filter fun t =>
    decide (p.minDocuments ≤ (c.holders t).length ∧ ((c.holders t).length : α) ≤ p.maxShare * (c.size : α))

/-- A term comes before another: it is heavier, or of the same weight with the smaller number. -/
def Outweighs (c : Corpus α) (t u : TermId) : Prop :=
  c.weightOf u < c.weightOf t ∨ c.weightOf u = c.weightOf t ∧ t < u

/-- The eligible terms, the heaviest first. -/
def rankedTerms (c : Corpus α) (p : SeedPolicy α) : List TermId :=
  (Sorting.sort heavierFirst ((c.eligibleTerms p).map fun t => (t, c.weightOf t))).map Prod.fst

/-- The eligible terms up to the limit of a policy, the heaviest first. -/
def chosenTerms (c : Corpus α) (p : SeedPolicy α) : List TermId :=
  match p.limit with
  | some k => (c.rankedTerms p).take k
  | none => c.rankedTerms p

end Corpus

/-- Terms are what a policy asks for: eligible, as many as its limit allows, and before all eligible ones left out. -/
structure Selection {α : Type} [Scalar α] (c : Corpus α) (p : SeedPolicy α) (seeds : List TermId) : Prop where
  ascending : Ascending seeds
  eligible : ∀ t ∈ seeds, t ∈ c.eligibleTerms p
  unlimited : p.limit = none → seeds.length = (c.eligibleTerms p).length
  limited : ∀ k, p.limit = some k → seeds.length = min k (c.eligibleTerms p).length
  heaviest : ∀ t ∈ seeds, ∀ u ∈ c.eligibleTerms p, u ∉ seeds → c.Outweighs t u

/-! ## Ranking -/

namespace Corpus

variable {α : Type} [Scalar α] (c : Corpus α)

theorem mem_eligibleTerms {p : SeedPolicy α} {t : TermId} : t ∈ c.eligibleTerms p ↔ t ∈ c.vocabulary ∧
    p.minDocuments ≤ (c.holders t).length ∧ ((c.holders t).length : α) ≤ p.maxShare * (c.size : α) := by
  rw [eligibleTerms, List.mem_filter, decide_eq_true_iff]

theorem ascending_eligibleTerms (p : SeedPolicy α) : Ascending (c.eligibleTerms p) := c.ascending_vocabulary.filter _

/-- The ranked terms are the eligible ones, in another order. -/
theorem perm_rankedTerms (p : SeedPolicy α) : (c.rankedTerms p).Perm (c.eligibleTerms p) :=
  Sorting.perm_map_fst_sort heavierFirst c.weightOf _

theorem mem_rankedTerms {p : SeedPolicy α} {t : TermId} : t ∈ c.rankedTerms p ↔ t ∈ c.eligibleTerms p :=
  (c.perm_rankedTerms p).mem_iff

theorem nodup_rankedTerms (p : SeedPolicy α) : (c.rankedTerms p).Nodup :=
  (c.perm_rankedTerms p).nodup_iff.2 (c.ascending_eligibleTerms p).nodup

theorem chosenTerms_of_limit {p : SeedPolicy α} {k : Nat} (h : p.limit = some k) :
    c.chosenTerms p = (c.rankedTerms p).take k := by
  rw [chosenTerms, h]

theorem chosenTerms_of_no_limit {p : SeedPolicy α} (h : p.limit = none) : c.chosenTerms p = c.rankedTerms p := by
  rw [chosenTerms, h]

/-- The chosen terms stand first among the ranked ones. -/
theorem prefix_chosenTerms (p : SeedPolicy α) : c.chosenTerms p <+: c.rankedTerms p := by
  cases h : p.limit with
  | none => rw [c.chosenTerms_of_no_limit h]
  | some k =>
    rw [c.chosenTerms_of_limit h]
    exact List.take_prefix k _

end Corpus

/-! ## Weights -/

theorem TermVector.weight?_pos {α : Type} [Scalar α] {v : TermVector α} {t : TermId} {w : α}
    (h : v.weight? t = some w) : 0 < w :=
  (v.positive (t, w) (mem_entries.2 h)).1

namespace Corpus

variable {α : Type} [Scalar α] (c : Corpus α)

/-- The weights that documents give a term are positive. -/
theorem weights_pos (t : TermId) (positions : List Position) :
    ∀ w ∈ positions.filterMap fun pos => (c.vector pos).weight? t, 0 < w := by
  intro w hw
  obtain ⟨pos, -, hw⟩ := List.mem_filterMap.1 hw
  exact TermVector.weight?_pos hw

/-- Only the documents that hold a term give it a weight. -/
theorem filterMap_weight? (t : TermId) : ((List.range c.size).filterMap fun pos => (c.vector pos).weight? t) =
    (c.holders t).filterMap fun pos => (c.vector pos).weight? t := by
  rw [holders, List.filterMap_filter]
  refine List.filterMap_congr ?_
  intro pos _
  unfold TermVector.contains
  cases (c.vector pos).weight? t <;> rfl

variable [Ranked α]

theorem aggregateWeight_pos {t : TermId} (h : t ∈ c.vocabulary) :
    0 < c.aggregateWeight t (c.holders t) := by
  obtain ⟨pos, hpos, hcontains⟩ := c.mem_vocabulary.1 h
  obtain ⟨w, hw⟩ := Option.isSome_iff_exists.1 hcontains
  refine Scalar.sum_pos (c.weights_pos t _) (List.ne_nil_of_mem (a := w) ?_)
  exact List.mem_filterMap.2 ⟨pos, c.mem_holders.2 ⟨hpos, hcontains⟩, hw⟩

/-- Adding up the documents that hold a term gives its weight over all. -/
theorem aggregateWeight_holders (t : TermId) : c.aggregateWeight t (c.holders t) = c.weightOf t := by
  have hmap : ((List.range c.size).map fun pos => ((c.vector pos).weight? t).getD 0) =
      ((List.range c.size).map fun pos => (c.vector pos).weight? t).map fun w => w.getD 0 := by
    rw [List.map_map]
    rfl
  have hfilter : (((List.range c.size).map fun pos => (c.vector pos).weight? t).filterMap fun w => w) =
      (c.holders t).filterMap fun pos => (c.vector pos).weight? t := by
    rw [List.filterMap_map, ← filterMap_weight?]
    rfl
  have hpos := c.weights_pos t (c.holders t)
  rw [← hfilter] at hpos
  rw [weightOf, hmap, Scalar.sum_map_getD hpos]
  exact congrArg Scalar.sum hfilter.symm

theorem weightOf_pos {t : TermId} (h : t ∈ c.vocabulary) : 0 < c.weightOf t := by
  rw [← aggregateWeight_holders]
  exact c.aggregateWeight_pos h

/-! ## Order -/

/-- The heavier term first is a total order. -/
instance : Std.TransCmp (heavierFirst : TermId × α → TermId × α → Ordering) :=
  have : Std.TransCmp fun x y : α => Scalar.order y x := Std.TransCmp.opposite
  inferInstanceAs (Std.TransCmp (compareLex (Ordering.byKey Prod.snd fun x y : α => Scalar.order y x)
    (compareOn (Prod.fst : TermId × α → TermId))))

theorem outweighs_of_heavierFirst {t u : TermId} (ht : t ∈ c.vocabulary) (hu : u ∈ c.vocabulary)
    (h : heavierFirst (t, c.weightOf t) (u, c.weightOf u) = .lt) : c.Outweighs t u := by
  rcases Ordering.then_eq_lt.1 h with hlt | ⟨heq, hnumber⟩
  · exact Or.inl ((Ranked.order_eq_lt (c.weightOf_pos hu) (c.weightOf_pos ht)).1 hlt)
  · have hweight := Scalar.lt_or_eq_of_order (c.weightOf_pos hu) (c.weightOf_pos ht) (by rw [heq]; rfl)
    exact hweight.imp_right fun he => ⟨he, compare_lt_iff_lt.1 hnumber⟩

/-- A ranked term comes before those behind it. -/
theorem pairwise_rankedTerms (p : SeedPolicy α) : (c.rankedTerms p).Pairwise c.Outweighs := by
  have hapart : Sorting.Apart heavierFirst ((c.eligibleTerms p).map fun t => (t, c.weightOf t)) := by
    refine List.pairwise_map.2 ((c.ascending_eligibleTerms p).nodup.imp ?_)
    intro t u hne he
    exact hne (compare_eq_iff_eq.1 (Ordering.then_eq_eq.1 he).2)
  have hvocabulary : ∀ t ∈ c.eligibleTerms p, t ∈ c.vocabulary := fun t ht => (c.mem_eligibleTerms.1 ht).1
  refine List.pairwise_map.2 (hapart.pairwise_sort ?_)
  refine List.forall_mem_map.2 fun t ht => List.forall_mem_map.2 fun u hu => ?_
  exact c.outweighs_of_heavierFirst (hvocabulary t ht) (hvocabulary u hu)

end Corpus

theorem Ascending.length_ofList {xs : List Nat} (h : xs.Nodup) : (ofList xs).length = xs.length :=
  ((List.perm_ext_iff_of_nodup (ascending_ofList xs).nodup h).2 fun _ => mem_ofList).length_eq

variable {α : Type} [Scalar α] [Ranked α]

/-- The chosen terms are what the policy asks for. -/
theorem selection_chosenTerms (c : Corpus α) (p : SeedPolicy α) :
    Selection c p (Ascending.ofList (c.chosenTerms p)) where
  ascending := Ascending.ascending_ofList _
  eligible t ht := c.mem_rankedTerms.1 ((c.prefix_chosenTerms p).subset (Ascending.mem_ofList.1 ht))
  unlimited hlimit := by
    rw [c.chosenTerms_of_no_limit hlimit, Ascending.length_ofList (c.nodup_rankedTerms p),
      (c.perm_rankedTerms p).length_eq]
  limited k hlimit := by
    have hnodup := (c.nodup_rankedTerms p).sublist (List.take_sublist k _)
    rw [c.chosenTerms_of_limit hlimit, Ascending.length_ofList hnodup, List.length_take,
      (c.perm_rankedTerms p).length_eq]
  heaviest := by
    intro t ht u hu hout
    rw [Ascending.mem_ofList] at ht hout
    obtain ⟨rest, hrest⟩ := c.prefix_chosenTerms p
    have hpairs := c.pairwise_rankedTerms p
    have hmem := c.mem_rankedTerms.2 hu
    rw [← hrest, List.pairwise_append] at hpairs
    rw [← hrest, List.mem_append] at hmem
    exact hpairs.2.2 t ht u (hmem.resolve_left hout)

namespace ToleranceSpace

variable {c : Corpus α} {τ : α} {f : Measure α} {s : ToleranceSpace α}

/-- A space weighs the eligible terms of the corpus. -/
theorem eligibleSeeds_eq (h : build c τ f = .ok s) (p : SeedPolicy α) :
    s.eligibleSeeds c p = (c.eligibleTerms p).map fun t => (t, c.weightOf t) := by
  have hweight : ∀ t, c.aggregateWeight t (s.postings t) = c.weightOf t := by
    intro t
    rw [postings_eq_holders h, c.aggregateWeight_holders]
  have heligible : ∀ t, p.eligible c.size (s.documentFrequency t) = decide (p.minDocuments ≤ (c.holders t).length ∧
      ((c.holders t).length : α) ≤ p.maxShare * (c.size : α)) := by
    intro t
    rw [documentFrequency, postings_eq_holders h, SeedPolicy.eligible, Bool.decide_and]
  simp only [eligibleSeeds, hweight, heligible, (fields_of_build h).1]
  rfl

/-- A space selects the chosen terms. -/
theorem selectSeeds_eq (h : build c τ f = .ok s) (p : SeedPolicy α) :
    s.selectSeeds c p = Ascending.ofList (c.chosenTerms p) := by
  refine Ascending.ext (ascending_selectSeeds c p) (Ascending.ascending_ofList _) ?_
  intro t
  have hterms : ((c.eligibleTerms p).map fun t => (t, c.weightOf t)).map Prod.fst = c.eligibleTerms p := by
    rw [List.map_map]
    exact List.map_id _
  simp only [selectSeeds, eligibleSeeds_eq h, Ascending.mem_ofList, List.length_map]
  cases hlimit : p.limit with
  | none =>
    rw [c.chosenTerms_of_no_limit hlimit, c.mem_rankedTerms, hterms]
  | some k =>
    rw [c.chosenTerms_of_limit hlimit]
    simp only
    split
    · rw [List.map_take]
      rfl
    · rename_i hfew
      have hall : (c.rankedTerms p).length ≤ k := by
        rw [(c.perm_rankedTerms p).length_eq]
        omega
      rw [List.take_of_length_le hall, c.mem_rankedTerms, hterms]

/-- A space of a corpus over binary64 selects what a policy asks for, whatever the policy is, and a policy with a larger
limit selects no less. -/
theorem selectSeeds_meets_policy (c : Corpus Float) {τ : Float} (hτ : Scalar.withinAbove 0 1 τ = true)
    (f : Measure Float) : ∃ s, build c τ f = .ok s ∧ (∀ t, c.aggregateWeight t (s.postings t) = c.weightOf t) ∧
      ∀ p : SeedPolicy Float, Selection c p (s.selectSeeds c p) ∧
        ∀ k, s.selectSeeds c { p with limit := some k } ⊆ s.selectSeeds c { p with limit := some (k + 1) } := by
  obtain ⟨s, hs⟩ := exists_build c hτ f
  refine ⟨s, hs, ?_, ?_⟩
  · intro t
    rw [postings_eq_holders hs, c.aggregateWeight_holders]
  · intro p
    refine ⟨?_, ?_⟩
    · rw [selectSeeds_eq hs]
      exact selection_chosenTerms c p
    · intro k t ht
      rw [selectSeeds_eq hs, Ascending.mem_ofList, c.chosenTerms_of_limit rfl] at ht ⊢
      exact List.take_subset_take_left _ (Nat.le_succ k) ht

/-- Of three terms with room for two, the heaviest is selected, and of two with the same weight the first. -/
theorem seeds_of_three_documents : Scalar.withinAbove 0 1 (0.5 : Float) = true ∧
    ∃ s, build threeDocuments 0.5 firstShare = .ok s ∧
      Selection threeDocuments ⟨1, 1, some 2⟩ (s.selectSeeds threeDocuments ⟨1, 1, some 2⟩) ∧
      s.selectSeeds threeDocuments ⟨1, 1, some 2⟩ = [0, 1] := by
  have hτ : Scalar.withinAbove 0 1 (0.5 : Float) = true := by decide +kernel
  obtain ⟨s, hs, -, hpolicy⟩ := selectSeeds_meets_policy threeDocuments hτ firstShare
  refine ⟨hτ, s, hs, (hpolicy ⟨1, 1, some 2⟩).1, ?_⟩
  have hseeds : (build threeDocuments 0.5 firstShare).toOption.map
      (fun s => s.selectSeeds threeDocuments ⟨1, 1, some 2⟩) = some [0, 1] := by decide +kernel
  rw [hs] at hseeds
  exact Option.some.inj hseeds

end ToleranceSpace

end ToleranceClustering
