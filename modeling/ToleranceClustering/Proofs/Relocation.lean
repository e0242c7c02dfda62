import Mathlib.Logic.Embedding.Basic
import ToleranceClustering.Proofs.Extraction
import ToleranceClustering.Proofs.FirstCandidates
import ToleranceClustering.Proofs.ToleranceRelation

/-!
# Documents at other places

The documents of one corpus can stand at other positions of a second one, with documents without terms between them. The
space counts documents and never looks at a position, so both corpora have the same classes (`classTerms_relocated`) and, if
their weights and shares agree, the same seeds (`selectSeeds_relocated`). A term set covers in the one corpus what it covers
in the other, at the other places (`approximate_relocated`), and two term sets overlap alike (`overlap_eq`).
-/

namespace ToleranceClustering

/-- The documents of `docs` are in `docs'` at the places that `σ` gives, and what else is there has no terms. -/
structure Relocated (σ : ℕ ↪ ℕ) (docs docs' : List Document) : Prop where
  kept : ∀ pos < docs.length, docs'[σ pos]? = docs[pos]?
  blank : ∀ pos d, docs'[pos]? = some d → (∃ p < docs.length, σ p = pos) ∨ d.terms = []

theorem TermVector.not_contains_of_isEmpty {α : Type} [Scalar α] {v : TermVector α} (h : v.isEmpty = true) (t : TermId) :
    v.contains t = false := by
  rw [Bool.eq_false_iff, ne_eq, contains_iff, (isEmpty_iff v).1 h]
  exact List.not_mem_nil

variable {α : Type} [Scalar α] {σ : ℕ ↪ ℕ} {c c' : Corpus α}

/-! ## Counting documents -/

/-- The documents of `c` are in `c'` at the places that `σ` gives, and what else is there has no terms. -/
structure Corpus.Relocated (σ : ℕ ↪ ℕ) (c c' : Corpus α) : Prop where
  bound : ∀ pos < c.size, σ pos < c'.size
  vector : ∀ pos < c.size, c'.vector (σ pos) = c.vector pos
  id : ∀ pos < c.size, c'.id (σ pos) = c.id pos
  blank : ∀ pos < c'.size, (∃ p < c.size, σ p = pos) ∨ c'.isMalformed pos = true

namespace Corpus.Relocated

variable (hr : c.Relocated σ c')
include hr

/-- What only documents with terms have is found at the other places and nowhere else. -/
theorem mem_filter_range {p : TermVector α → Bool} (hp : ∀ v, v.isEmpty = true → p v = false) (pos : Position) :
    pos ∈ (List.range c'.size).filter (fun pos => p (c'.vector pos)) ↔
      ∃ q ∈ (List.range c.size).filter (fun pos => p (c.vector pos)), σ q = pos := by
  simp only [List.mem_filter, List.mem_range]
  constructor
  · rintro ⟨hlt, hpos⟩
    obtain ⟨q, hq, rfl⟩ | hblank := hr.blank pos hlt
    · rw [hr.vector q hq] at hpos
      exact ⟨q, ⟨hq, hpos⟩, rfl⟩
    · rw [hp _ hblank] at hpos
      cases hpos
  · rintro ⟨q, ⟨hq, hpos⟩, rfl⟩
    refine ⟨hr.bound q hq, ?_⟩
    rw [hr.vector q hq]
    exact hpos

theorem perm_filter_range {p : TermVector α → Bool} (hp : ∀ v, v.isEmpty = true → p v = false) :
    ((List.range c'.size).filter fun pos => p (c'.vector pos)).Perm
      (((List.range c.size).filter fun pos => p (c.vector pos)).map σ) := by
  refine (List.perm_ext_iff_of_nodup (List.nodup_range.filter _) ((List.nodup_range.filter _).map σ.injective)).2 ?_
  intro pos
  rw [hr.mem_filter_range hp, List.mem_map]

theorem perm_holders (t : TermId) : (c'.holders t).Perm ((c.holders t).map σ) :=
  hr.perm_filter_range (p := fun v => v.contains t) fun _ hv => TermVector.not_contains_of_isEmpty hv t

theorem length_holders (t : TermId) : (c'.holders t).length = (c.holders t).length := by
  rw [(hr.perm_holders t).length_eq, List.length_map]

theorem jointHolders_eq (a b : TermId) : c'.jointHolders a b = c.jointHolders a b := by
  have hp := hr.perm_filter_range (p := fun v => v.contains a && v.contains b) fun v hv => by
    simp [TermVector.not_contains_of_isEmpty hv a]
  have hlen := hp.length_eq
  rwa [List.length_map] at hlen

theorem vocabulary_eq : c'.vocabulary = c.vocabulary := by
  refine c'.ascending_vocabulary.ext c.ascending_vocabulary ?_
  intro t
  rw [mem_vocabulary, mem_vocabulary]
  constructor
  · rintro ⟨pos, hpos, ht⟩
    obtain ⟨q, hq, -⟩ := List.mem_map.1 ((hr.perm_holders t).mem_iff.1 (c'.mem_holders.2 ⟨hpos, ht⟩))
    exact ⟨q, c.mem_holders.1 hq⟩
  · rintro ⟨pos, hpos, ht⟩
    exact ⟨σ pos, hr.bound pos hpos, (hr.vector pos hpos).symm ▸ ht⟩

theorem tolerant_iff {τ : α} {f : Measure α} {a b : TermId} : c'.Tolerant τ f a b ↔ c.Tolerant τ f a b := by
  unfold Tolerant similarity
  rw [hr.vocabulary_eq, hr.jointHolders_eq, hr.length_holders, hr.length_holders]

end Corpus.Relocated

/-! ## Classes and seeds -/

namespace ToleranceSpace

variable {τ : α} {f : Measure α} {s s' : ToleranceSpace α}

theorem classTerms_relocated (hr : c.Relocated σ c') (h : build c τ f = .ok s) (h' : build c' τ f = .ok s') (t : TermId) :
    s'.classTerms t = s.classTerms t := by
  unfold classTerms
  by_cases ht : t ∈ c.vocabulary
  · obtain ⟨cls, hcls, -, hasc, hmem⟩ := class?_spec h ht
    obtain ⟨cls', hcls', -, hasc', hmem'⟩ := class?_spec h' (hr.vocabulary_eq ▸ ht)
    rw [hcls, hcls']
    exact hasc'.ext hasc fun b => (hmem' b).trans (hr.tolerant_iff.trans (hmem b).symm)
  · have ht' : t ∉ c'.vocabulary := hr.vocabulary_eq ▸ ht
    rw [class?, class?, index?_of_not_mem h ht, index?_of_not_mem h' ht']
    rfl

theorem documentFrequency_relocated (hr : c.Relocated σ c') (h : build c τ f = .ok s) (h' : build c' τ f = .ok s')
    (t : TermId) : s'.documentFrequency t = s.documentFrequency t := by
  unfold documentFrequency
  rw [postings_eq_holders h, postings_eq_holders h', hr.length_holders]

/-- Both corpora have the same seeds if the share of documents lets the same terms through, and the terms weigh the same
where their weights matter. -/
theorem selectSeeds_relocated (hr : c.Relocated σ c') (h : build c τ f = .ok s) (h' : build c' τ f = .ok s')
    {p : SeedPolicy α} (heligible : ∀ n ≤ c.size, p.eligible c'.size n = p.eligible c.size n)
    (hweights : p.limit = none ∨ ∀ t, c'.aggregateWeight t (c'.holders t) = c.aggregateWeight t (c.holders t)) :
    s'.selectSeeds c' p = s.selectSeeds c p := by
  have hterms : s'.terms = s.terms := by rw [(fields_of_build h).1, (fields_of_build h').1, hr.vocabulary_eq]
  have hfilter : (s'.terms.toList.filter fun t => p.eligible c'.size (s'.documentFrequency t)) =
      s.terms.toList.filter fun t => p.eligible c.size (s.documentFrequency t) := by
    rw [hterms]
    refine List.filter_congr ?_
    intro t _
    have hle : s.documentFrequency t ≤ c.size := by
      rw [documentFrequency, postings_eq_holders h]
      exact (List.length_filter_le _ _).trans_eq List.length_range
    rw [documentFrequency_relocated hr h h', heligible _ hle]
  obtain hlimit | hweights := hweights
  · unfold selectSeeds eligibleSeeds
    simp only [hlimit, List.map_map, hfilter]
    rfl
  · have he : s'.eligibleSeeds c' p = s.eligibleSeeds c p := by
      unfold eligibleSeeds
      rw [hfilter]
      refine List.map_congr_left ?_
      intro t _
      rw [postings_eq_holders h, postings_eq_holders h', hweights t]
    unfold selectSeeds
    rw [he]

end ToleranceSpace

/-! ## Approximations -/

/-- The approximation `a'` covers, at the places that `σ` gives, what `a` covers of some documents, with the same
memberships. -/
structure Approximation.Relocated (σ : ℕ ↪ ℕ) (size : ℕ) (a a' : Approximation α) : Prop where
  terms : a'.terms = a.terms
  members : a'.members.Perm (a.members.map (Prod.map σ id))
  ascending : Ascending a.positions
  ascending' : Ascending a'.positions
  bounded : ∀ pos ∈ a.positions, pos < size

namespace Approximation.Relocated

variable {size : ℕ} {a a' b b' : Approximation α}

omit [Scalar α] in
theorem size_eq (h : a.Relocated σ size a') : a'.size = a.size := by
  unfold Approximation.size
  rw [h.members.length_eq, List.length_map]

omit [Scalar α] in
theorem perm_positions (h : a.Relocated σ size a') : a'.positions.Perm (a.positions.map σ) := by
  have hp := h.members.map Prod.fst
  rw [List.map_map] at hp
  unfold positions
  rw [List.map_map]
  exact hp

omit [Scalar α] in
theorem mem_positions (h : a.Relocated σ size a') (pos : Position) : σ pos ∈ a'.positions ↔ pos ∈ a.positions := by
  rw [h.perm_positions.mem_iff, List.mem_map_of_injective σ.injective]

/-- How much two approximations overlap does not depend on the places. -/
theorem overlap_eq (ha : a.Relocated σ size a') (hb : b.Relocated σ size b') : a'.overlap b' = a.overlap b := by
  have hshared : Ascending.sharedCount a'.positions b'.positions = Ascending.sharedCount a.positions b.positions := by
    rw [Ascending.sharedCount_eq_countP ha.ascending' hb.ascending',
      Ascending.sharedCount_eq_countP ha.ascending hb.ascending, ha.perm_positions.countP_eq, List.countP_map]
    refine List.countP_congr ?_
    intro pos _
    rw [Function.comp_apply, List.contains_iff_mem, List.contains_iff_mem]
    exact hb.mem_positions pos
  unfold overlap
  rw [hshared, ha.size_eq, hb.size_eq]

end Approximation.Relocated

/-- A term set covers the same documents in both corpora. -/
theorem Corpus.approximate_relocated [Scalar.Rounded α] (hr : c.Relocated σ c') (terms : List TermId) (μ : α) :
    (c.approximate terms μ).Relocated σ c.size (c'.approximate terms μ) where
  terms := rfl
  members := by
    have hcovered : (c'.covered terms μ).Perm ((c.covered terms μ).map σ) := by
      refine hr.perm_filter_range (p := fun v => decide (0 < membership v terms ∧ μ ≤ membership v terms)) ?_
      intro v hv
      rw [membership_of_isEmpty hv]
      exact decide_eq_false fun hpos => Scalar.Ordered.lt_irrefl 0 hpos.1
    rw [members_approximate, members_approximate]
    refine (hcovered.map _).trans (List.Perm.of_eq ?_)
    rw [List.map_map, List.map_map]
    refine List.map_congr_left ?_
    intro pos hpos
    rw [Function.comp_apply, hr.vector pos (c.mem_covered.1 hpos).1]
    rfl
  ascending := by
    rw [positions_approximate]
    exact c.ascending_covered terms μ
  ascending' := by
    rw [positions_approximate]
    exact c'.ascending_covered terms μ
  bounded := by
    intro pos hpos
    rw [positions_approximate] at hpos
    exact (c.mem_covered.1 hpos).1

/-! ## Extraction -/

/-- Relocated documents have relocated vectors, if every document has the same weighted terms in both batches. -/
theorem Extraction.extract_relocated (e : Extraction α) {lex : Lexicon} {docs docs' : List Document}
    (hdocs : Relocated σ docs docs') (hpairs : ∀ d ∈ docs, pairsOf e lex docs' d = pairsOf e lex docs d) :
    (extract e lex docs).1.Relocated σ (extract e lex docs').1 := by
  have hsize := size_extract e lex docs
  have hsize' := size_extract e lex docs'
  have hmoved : ∀ pos < docs.length, ∃ d ∈ docs, docs[pos]? = some d ∧ docs'[σ pos]? = some d := by
    intro pos hpos
    have hd : docs[pos]? = some docs[pos] := List.getElem?_eq_getElem hpos
    exact ⟨docs[pos], List.getElem_mem hpos, hd, (hdocs.kept pos hpos).trans hd⟩
  refine ⟨?_, ?_, ?_, ?_⟩
  · intro pos hpos
    obtain ⟨d, -, -, hd'⟩ := hmoved pos (hsize ▸ hpos)
    rw [hsize']
    exact (List.getElem?_eq_some_iff.1 hd').1
  · intro pos hpos
    obtain ⟨d, hmem, hd, hd'⟩ := hmoved pos (hsize ▸ hpos)
    rw [vector_extract e lex docs hd, vector_extract e lex docs' hd', hpairs d hmem]
  · intro pos hpos
    obtain ⟨d, -, hd, hd'⟩ := hmoved pos (hsize ▸ hpos)
    rw [id_extract e lex docs hd, id_extract e lex docs' hd']
  · intro pos hpos
    rw [hsize'] at hpos
    have hd' : docs'[pos]? = some docs'[pos] := List.getElem?_eq_getElem hpos
    rw [hsize]
    refine (hdocs.blank pos _ hd').imp_right ?_
    intro hblank
    have hnone : pairsOf e lex docs' docs'[pos] = [] := by
      unfold pairsOf tallyOf
      rw [hblank]
      rfl
    rw [Corpus.isMalformed, vector_extract e lex docs' hd', hnone]
    rfl

end ToleranceClustering
