import ToleranceClustering.Clusterer
import ToleranceClustering.Proofs.Covering

/-!
# The first candidates

Before merging there is one candidate for each selected seed whose own class covers enough documents. The candidates are
numbered in their order (`ids_ofSeeds`), and each has one seed and the approximation of its class (`perm_ofSeeds`).
-/

namespace ToleranceClustering

variable {α : Type}

namespace Candidate

/-- Seeds and approximation of a candidate, without its number. -/
def content (a : Candidate α) : List TermId × Approximation α := (a.seeds, a.approximation)

/-- The first candidates are numbered in their order. -/
theorem ids_ofSeeds (seeds : List TermId) (approximations : List (Approximation α)) (minSize : Nat) :
    (ofSeeds seeds approximations minSize).map Candidate.id =
      List.range (ofSeeds seeds approximations minSize).length := by
  unfold ofSeeds
  simp only [List.map_map, List.length_map, List.length_zipIdx]
  have hid : (Candidate.id ∘ fun (p : Candidate α × Nat) => { p.1 with id := p.2 }) = Prod.snd := rfl
  rw [hid, List.zipIdx_map_snd, List.range_eq_range']

/-- Up to order, the first candidates are the seeds with large approximations, each with its own. -/
theorem perm_ofSeeds (seeds : List TermId) (g : TermId → Approximation α) (minSize : Nat) :
    ((ofSeeds seeds (seeds.map g) minSize).map content).Perm
      ((seeds.filter fun t => minSize ≤ (g t).size).map fun t => ([t], g t)) := by
  have hlarge : ((seeds.zip (seeds.map g)).filter fun p => decide (minSize ≤ p.2.size)) =
      (seeds.filter fun t => minSize ≤ (g t).size).map fun t => (t, g t) := by
    have hz : seeds.zip (seeds.map g) = seeds.map fun t => (t, g t) := by
      rw [List.zip_map_right, List.zip, List.zipWith_self, List.map_map]
      rfl
    rw [hz, List.filter_map]
    rfl
  unfold ofSeeds
  simp only [List.map_map, hlarge]
  have hcontent : (content ∘ fun (p : Candidate α × Nat) => { p.1 with id := p.2 }) = content ∘ Prod.fst := rfl
  rw [hcontent, ← List.map_map, List.zipIdx_map_fst]
  refine ((Sorting.perm_sort bySeed _).map content).trans ?_
  rw [List.map_map]
  exact List.Perm.refl _

end Candidate

namespace ToleranceSpace

variable [Scalar α] {c : Corpus α} {τ : α} {f : Measure α} {s : ToleranceSpace α}

/-- Only terms of the vocabulary are seeds. -/
theorem mem_vocabulary_of_mem_selectSeeds (h : build c τ f = .ok s) {p : SeedPolicy α} {t : TermId}
    (ht : t ∈ s.selectSeeds c p) : t ∈ c.vocabulary := by
  have hterms : ∀ e ∈ s.eligibleSeeds c p, e.1 ∈ c.vocabulary := by
    intro e he
    obtain ⟨u, hu, rfl⟩ := List.mem_map.1 he
    have hmem := (List.mem_filter.1 hu).1
    rw [(fields_of_build h).1] at hmem
    exact hmem
  unfold selectSeeds at ht
  obtain ⟨e, he, rfl⟩ := List.mem_map.1 (Ascending.mem_ofList.1 ht)
  refine hterms e ?_
  cases hl : p.limit with
  | none =>
    rw [hl] at he
    exact he
  | some k =>
    rw [hl] at he
    simp only at he
    split at he
    · exact (Sorting.perm_sort heavierFirst _).mem_iff.1 (List.mem_of_mem_take he)
    · exact he

theorem ascending_selectSeeds (c : Corpus α) (p : SeedPolicy α) : Ascending (s.selectSeeds c p) :=
  Ascending.ascending_ofList _

/-- A term of the vocabulary has a class. -/
theorem class?_of_mem (h : build c τ f = .ok s) {t : TermId} (ht : t ∈ c.vocabulary) :
    ∃ cls, s.class? t = some cls ∧ s.classTerms t = cls.members := by
  have hc : s.class? t = some (s.classAt (c.vocabulary.idxOf t)) := by
    rw [class?, index?_of_mem h ht]
    rfl
  refine ⟨_, hc, ?_⟩
  rw [classTerms, hc]

end ToleranceSpace

namespace Clusterer

variable [Scalar α] {settings : Settings α} {c : Corpus α} {s : ToleranceSpace α}

/-- The seeds of a run whose own class covers enough documents. -/
def largeSeeds (settings : Settings α) (s : ToleranceSpace α) (c : Corpus α) : List TermId :=
  (s.selectSeeds c settings.seeds).filter fun t =>
    settings.minClusterSize ≤ (s.approximate c (s.classTerms t) settings.minMembership).size

theorem mem_largeSeeds {t : TermId} :
    t ∈ largeSeeds settings s c ↔ t ∈ s.selectSeeds c settings.seeds ∧
      settings.minClusterSize ≤ (s.approximate c (s.classTerms t) settings.minMembership).size := by
  rw [largeSeeds, List.mem_filter, decide_eq_true_iff]

theorem ids_candidates (settings : Settings α) (s : ToleranceSpace α) (c : Corpus α) :
    (candidates settings s c).map Candidate.id = List.range (candidates settings s c).length :=
  Candidate.ids_ofSeeds _ _ _

theorem perm_candidates (settings : Settings α) (s : ToleranceSpace α) (c : Corpus α) :
    ((candidates settings s c).map Candidate.content).Perm ((largeSeeds settings s c).map fun t =>
      ([t], s.approximate c (s.classTerms t) settings.minMembership)) :=
  Candidate.perm_ofSeeds _ _ _

/-- A first candidate has one seed, and the approximation of its class. -/
theorem exists_of_mem_candidates {a : Candidate α} (h : a ∈ candidates settings s c) :
    ∃ t ∈ largeSeeds settings s c, a.seeds = [t] ∧
      a.approximation = s.approximate c (s.classTerms t) settings.minMembership := by
  have hmem := (perm_candidates settings s c).mem_iff.1 (List.mem_map_of_mem (f := Candidate.content) h)
  obtain ⟨t, ht, he⟩ := List.mem_map.1 hmem
  obtain ⟨hs, ha⟩ := Prod.mk.inj he
  exact ⟨t, ht, hs.symm, ha.symm⟩

/-- Every seed with a large class has a first candidate. -/
theorem exists_candidate {t : TermId} (h : t ∈ largeSeeds settings s c) :
    ∃ a ∈ candidates settings s c, a.seeds = [t] := by
  have hmem := (perm_candidates settings s c).mem_iff.2 (List.mem_map_of_mem
    (f := fun t => ([t], s.approximate c (s.classTerms t) settings.minMembership)) h)
  obtain ⟨a, ha, he⟩ := List.mem_map.1 hmem
  exact ⟨a, ha, (Prod.mk.inj he).1⟩

/-- No two first candidates have a seed in common. -/
theorem pairwise_candidates :
    (candidates settings s c).Pairwise fun a b => a.seeds ≠ b.seeds := by
  have hnodup : ((candidates settings s c).map Candidate.seeds).Nodup := by
    have hp := (perm_candidates settings s c).map Prod.fst
    rw [List.map_map, List.map_map] at hp
    refine hp.nodup_iff.2 (List.Nodup.map (fun t u he => (List.cons.inj he).1) ?_)
    exact ((ToleranceSpace.ascending_selectSeeds c settings.seeds).filter _).nodup
  exact List.pairwise_map.1 hnodup

end Clusterer

end ToleranceClustering
