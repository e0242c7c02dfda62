import ToleranceClustering.Proofs.Extraction
import ToleranceClustering.Proofs.FirstCandidates

/-!
# A run

Settings that were checked lie in their ranges, so a run that is not cancelled builds its tolerance space and returns a
clustering (`cluster_eq`). It fails for no list of documents and no lexicon.
-/

namespace ToleranceClustering

/-- A check that passes was passed step by step. -/
theorem Failure.of_unless_bind {β : Type} {holds : Bool} {name requirement : String} {rest : Except Failure β} {b : β}
    (h : (Failure.unless holds name requirement >>= fun _ => rest) = .ok b) : holds = true ∧ rest = .ok b := by
  cases holds with
  | false => nomatch h
  | true => exact ⟨rfl, h⟩

variable {α : Type} [Scalar α]

/-- What checked settings keep to. -/
structure Settings.InRange (s : Settings α) : Prop where
  tolerance : Scalar.withinAbove 0 1 s.tolerance = true
  minMembership : 0 ≤ s.minMembership ∧ s.minMembership ≤ 1
  mergeThreshold : 0 ≤ s.mergeThreshold ∧ s.mergeThreshold ≤ 1
  minClusterSize : 0 < s.minClusterSize

theorem Settings.inRange_of_check {s : Settings α} (h : s.check = .ok ()) : s.InRange := by
  obtain ⟨h₁, h⟩ := Failure.of_unless_bind h
  obtain ⟨h₂, h⟩ := Failure.of_unless_bind h
  obtain ⟨h₃, h⟩ := Failure.of_unless_bind h
  obtain ⟨-, h⟩ := Failure.of_unless_bind h
  obtain ⟨h₅, -⟩ := Failure.of_unless_bind h
  rw [Scalar.within, Bool.and_eq_true, decide_eq_true_iff, decide_eq_true_iff] at h₂ h₃
  refine ⟨h₁, h₂, h₃, ?_⟩
  rw [bne_iff_ne] at h₅
  omega

theorem ToleranceSpace.exists_build (c : Corpus α) {τ : α} (h : Scalar.withinAbove 0 1 τ = true) (f : Measure α) :
    ∃ s, build c τ f = .ok s := by
  unfold build Failure.unless
  rw [if_pos h]
  exact ⟨_, rfl⟩

namespace Clusterer

variable (k : Clusterer α) (lex : Lexicon) (docs : List Document)

/-- How a clusterer extracts. -/
def extraction : Extraction α := ⟨k.settings.weighting, k.settings.maxTermShare⟩

/-- The corpus of a run. -/
def corpusOf : Corpus α := (Extraction.extract k.extraction lex docs).1

/-- The corpus and the space of a run. -/
def IsSpaceOf (s : ToleranceSpace α) : Prop :=
  ToleranceSpace.build (k.corpusOf lex docs) k.settings.tolerance k.settings.similarity.measure = .ok s

theorem inRange : k.settings.InRange := Settings.inRange_of_check k.accepted

theorem exists_space : ∃ s, k.IsSpaceOf lex docs s := ToleranceSpace.exists_build _ k.inRange.tolerance _

/-- Clusterers that extract and relate terms alike have the same corpora and the same spaces. -/
theorem exists_common_space {k k' : Clusterer α} (hextraction : k.extraction = k'.extraction)
    (hτ : k.settings.tolerance = k'.settings.tolerance) (hf : k.settings.similarity = k'.settings.similarity) :
    k.corpusOf lex docs = k'.corpusOf lex docs ∧ ∃ s, k.IsSpaceOf lex docs s ∧ k'.IsSpaceOf lex docs s := by
  have hcorpus : k.corpusOf lex docs = k'.corpusOf lex docs := by
    unfold corpusOf
    rw [hextraction]
  obtain ⟨s, hs⟩ := k'.exists_space lex docs
  refine ⟨hcorpus, s, ?_, hs⟩
  unfold IsSpaceOf
  rw [hcorpus, hτ, hf]
  exact hs

theorem size_corpusOf : (k.corpusOf lex docs).size = docs.length := Extraction.size_extract _ _ _

/-- Clustering a corpus without documents finds nothing. -/
theorem clusterCorpus_of_size_zero {c : Corpus α} {τ : α} {f : Measure α} {s : ToleranceSpace α}
    (h : ToleranceSpace.build c τ f = .ok s) (hc : c.size = 0) : k.clusterCorpus lex c s = Clustering.empty := by
  have hseeds : s.selectSeeds c k.settings.seeds = [] := by
    refine List.eq_nil_iff_forall_not_mem.2 ?_
    intro t ht
    obtain ⟨pos, hpos, -⟩ := c.mem_vocabulary.1 (ToleranceSpace.mem_vocabulary_of_mem_selectSeeds h ht)
    omega
  have hcs : candidates k.settings s c = [] := by
    unfold candidates
    rw [hseeds]
    rfl
  unfold clusterCorpus
  simp only [hcs]
  unfold uncovered
  rw [hc]
  rfl

/-- A run that is not cancelled clusters its corpus in its space, also when there are no documents. -/
theorem cluster_eq {s : ToleranceSpace α} (h : k.IsSpaceOf lex docs s) :
    (k.cluster lex docs false).1 =
      .ok (k.clusterCorpus (Extraction.extract k.extraction lex docs).2 (k.corpusOf lex docs) s) := by
  unfold cluster
  cases docs with
  | nil =>
    have hs : (k.corpusOf lex []).size = 0 := k.size_corpusOf lex []
    rw [k.clusterCorpus_of_size_zero _ h hs]
    rfl
  | cons d ds =>
    obtain ⟨c, later, hx⟩ : ∃ c later, Extraction.extract k.extraction lex (d :: ds) = (c, later) := ⟨_, _, rfl⟩
    have hb : ToleranceSpace.build c k.settings.tolerance k.settings.similarity.measure = .ok s := by
      rw [IsSpaceOf, corpusOf, hx] at h
      exact h
    rw [corpusOf, hx]
    unfold extraction at hx
    simp only [List.isEmpty_cons, Bool.false_eq_true, if_false, hx, hb]

end Clusterer

end ToleranceClustering
