import ToleranceClustering.Proofs.ExtractionReference
import ToleranceClustering.Proofs.RelationGraph

/-!
# How large a relation can be

Every pair of terms is related once at most, so a relation over `n` terms has no more than `n.choose 2` pairs
(`relationSize_le`), and it has as many if all terms tolerate each other (`relationSize_of_tolerant`). In a batch of one
document they do, whatever the threshold and the built-in measure (`relationSize_of_size_one`).

So a run that leaves at most 92,682 terms behind stays below `2 ^ 32` pairs (`Clusterer.relationSize_lt_of_size_le`), and one
document with one term more goes beyond (`Clusterer.relationSize_of_counted`).
-/

namespace ToleranceClustering

/-- Each of `n` things paired with the later ones. -/
theorem sum_later (n : Nat) : ((List.range n).map fun i => n - 1 - i).sum = n.choose 2 := by
  have hsum : ((List.range n).map fun i => n - 1 - i).sum = ∑ i ∈ Finset.range n, (n - 1 - i) := rfl
  rw [hsum, Finset.sum_range_reflect (fun i => i) n, Finset.sum_range_id, Nat.choose_two_right]

namespace ToleranceSpace

variable {α : Type} [Scalar α] {c : Corpus α} {τ : α} {f : Measure α} {s : ToleranceSpace α}

/-- The size of a relation, row by row. -/
theorem relationSize_eq_sum (h : build c τ f = .ok s) :
    s.relationSize = ((List.range c.vocabulary.length).map fun i => (s.incidence.linkedRow τ f i).length).sum := by
  rw [relationSize_eq_length, edges_eq h, List.length_flatMap]
  simp only [List.length_map]

/-- The row of a term has later terms only, each once. -/
theorem length_linkedRow_le (h : build c τ f = .ok s) (i : Nat) :
    (s.incidence.linkedRow τ f i).length ≤ c.vocabulary.length - 1 - i := by
  have hlater : (s.incidence.linkedRow τ f i).map Prod.fst ⊆ List.range' (i + 1) (c.vocabulary.length - 1 - i) := by
    intro j hj
    obtain ⟨e, he, rfl⟩ := List.mem_map.1 hj
    have hbound := Incidence.lt_of_mem_linkedRow (proper_incidence h) he
    rw [termCount_incidence h] at hbound
    rw [List.mem_range'_1]
    omega
  have hdistinct : ((s.incidence.linkedRow τ f i).map Prod.fst).Nodup := (Incidence.ascending_linkedRow i).nodup
  have hle := (hdistinct.subperm hlater).length_le
  rwa [List.length_map, List.length_range'] at hle

/-- Where all terms tolerate each other, the row of a term has all later ones. -/
theorem le_length_linkedRow (h : build c τ f = .ok s)
    (hall : ∀ a ∈ c.vocabulary, ∀ b ∈ c.vocabulary, a ≠ b → c.Tolerant τ f a b) {i : Nat}
    (hi : i < c.vocabulary.length) : c.vocabulary.length - 1 - i ≤ (s.incidence.linkedRow τ f i).length := by
  have hlater : List.range' (i + 1) (c.vocabulary.length - 1 - i) ⊆ (s.incidence.linkedRow τ f i).map Prod.fst := by
    intro j hj
    rw [List.mem_range'_1] at hj
    obtain ⟨hav, hai⟩ := termAt_mem h hi
    obtain ⟨hbv, hbj⟩ := termAt_mem h (show j < c.vocabulary.length by omega)
    have hlt : s.termAt i < s.termAt j := by
      rw [← c.ascending_vocabulary.idxOf_lt_idxOf hav hbv, hai, hbj]
      omega
    have hlink := (link?_idxOf h hav hbv _).2 ⟨hlt, hall _ hav _ hbv (Nat.ne_of_lt hlt), rfl⟩
    rw [hai, hbj] at hlink
    exact List.mem_map.2 ⟨(j, _), (Incidence.mem_linkedRow (proper_incidence h)).2 hlink, rfl⟩
  have hdistinct : (List.range' (i + 1) (c.vocabulary.length - 1 - i)).Nodup := List.nodup_range' 1
  have hle := (hdistinct.subperm hlater).length_le
  rwa [List.length_map, List.length_range'] at hle

/-- A relation has no more pairs than there are pairs of terms. -/
theorem relationSize_le (h : build c τ f = .ok s) : s.relationSize ≤ c.vocabulary.length.choose 2 := by
  rw [relationSize_eq_sum h, ← sum_later]
  exact List.sum_le_sum fun i _ => length_linkedRow_le h i

/-- Where all terms tolerate each other, the relation has all pairs. -/
theorem relationSize_of_tolerant (h : build c τ f = .ok s)
    (hall : ∀ a ∈ c.vocabulary, ∀ b ∈ c.vocabulary, a ≠ b → c.Tolerant τ f a b) :
    s.relationSize = c.vocabulary.length.choose 2 := by
  refine Nat.le_antisymm (relationSize_le h) ?_
  rw [relationSize_eq_sum h, ← sum_later]
  exact List.sum_le_sum fun i hi => le_length_linkedRow h hall (List.mem_range.1 hi)

/-- Without documents no terms are related. -/
theorem relationSize_of_size_zero (h : build c τ f = .ok s) (hsize : c.size = 0) : s.relationSize = 0 := by
  have hvocabulary : c.vocabulary = [] := by
    refine List.eq_nil_iff_forall_not_mem.2 ?_
    intro t ht
    obtain ⟨pos, hpos, -⟩ := c.mem_vocabulary.1 ht
    omega
  have hle := relationSize_le h
  rw [hvocabulary] at hle
  exact Nat.le_zero.1 hle

end ToleranceSpace

/-! ## One document -/

namespace Corpus

variable {α : Type} [Scalar α] {c : Corpus α}

/-- A term of a batch of one document is in that document. -/
theorem holders_of_size_one (hsize : c.size = 1) {t : TermId} (ht : t ∈ c.vocabulary) : c.holders t = [0] := by
  obtain ⟨pos, hpos, hmem⟩ := c.mem_vocabulary.1 ht
  obtain rfl : pos = 0 := by omega
  simp [holders, hsize, hmem]

/-- Two terms of a batch of one document are together in that document. -/
theorem jointHolders_of_size_one (hsize : c.size = 1) {a b : TermId} (ha : a ∈ c.vocabulary) (hb : b ∈ c.vocabulary) :
    c.jointHolders a b = 1 := by
  have hmem : (c.vector 0).contains b = true := by
    have hzero : 0 ∈ c.holders b := by
      rw [holders_of_size_one hsize hb]
      exact List.mem_singleton_self 0
    exact (c.mem_holders.1 hzero).2
  rw [jointHolders_eq_countP, holders_of_size_one hsize ha]
  simp [hmem]

/-- Terms that share the one document there is are as similar as terms can be. -/
theorem similarity_of_size_one (hsize : c.size = 1) (f : Measure α) {a b : TermId} (ha : a ∈ c.vocabulary)
    (hb : b ∈ c.vocabulary) : c.similarity f a b = f 1 1 1 := by
  rw [similarity, jointHolders_of_size_one hsize ha hb, holders_of_size_one hsize ha, holders_of_size_one hsize hb]
  exact ite_self (f 1 1 1)

end Corpus

/-- The measures of the library give one where every document holds both terms. -/
theorem Similarity.measure_one (m : Similarity) : m.measure 1 1 1 = (1 : Float) := by
  cases m <;> decide +kernel

/-- In a batch of one document all terms tolerate each other. -/
theorem ToleranceSpace.relationSize_of_size_one {c : Corpus Float} {τ : Float} {m : Similarity}
    {s : ToleranceSpace Float} (h : build c τ m.measure = .ok s) (hsize : c.size = 1) :
    s.relationSize = c.vocabulary.length.choose 2 := by
  have hrange := (Failure.of_unless_bind h).1
  rw [Scalar.withinAbove, Bool.and_eq_true, decide_eq_true_iff, decide_eq_true_iff] at hrange
  refine relationSize_of_tolerant h ?_
  intro a ha b hb hne
  refine Or.inr ⟨hne, ?_, ?_⟩
  · rw [Corpus.jointHolders_of_size_one hsize ha hb]
    exact Nat.one_pos
  · rw [Corpus.similarity_of_size_one hsize _ ha hb, m.measure_one]
    exact hrange.2

/-! ## Runs -/

namespace Clusterer

variable {α : Type} [Scalar α] {k : Clusterer α} {lex : Lexicon} {docs : List Document}

/-- The terms of the corpus of a run are numbered by the lexicon that the run leaves behind. -/
theorem lt_size_of_mem_vocabulary {t : TermId} (ht : t ∈ (k.corpusOf lex docs).vocabulary) :
    t < (Extraction.lexiconAfter lex docs).size := by
  obtain ⟨pos, hpos, hmem⟩ := (k.corpusOf lex docs).mem_vocabulary.1 ht
  rw [k.size_corpusOf] at hpos
  obtain ⟨term, hterm, rfl⟩ := Extraction.exists_of_contains (List.getElem?_eq_getElem hpos) hmem
  exact List.idxOf_lt_length_of_mem (Extraction.mem_lexiconAfter (List.getElem_mem hpos) hterm)

/-- The corpus of a run has no more terms than the lexicon that the run leaves behind. -/
theorem length_vocabulary_le : (k.corpusOf lex docs).vocabulary.length ≤ (Extraction.lexiconAfter lex docs).size := by
  have hsub : (k.corpusOf lex docs).vocabulary ⊆ List.range (Extraction.lexiconAfter lex docs).size :=
    fun t ht => List.mem_range.2 (lt_size_of_mem_vocabulary ht)
  have hle := ((k.corpusOf lex docs).ascending_vocabulary.nodup.subperm hsub).length_le
  rwa [List.length_range] at hle

/-- A run that leaves 92,682 terms behind, or less, relates less than `2 ^ 32` pairs. -/
theorem relationSize_lt_of_size_le {s : ToleranceSpace α} (h : k.IsSpaceOf lex docs s)
    (hsize : (Extraction.lexiconAfter lex docs).size ≤ 92682) : s.relationSize < 2 ^ 32 :=
  calc s.relationSize ≤ (k.corpusOf lex docs).vocabulary.length.choose 2 := ToleranceSpace.relationSize_le h
    _ ≤ Nat.choose 92682 2 := Nat.choose_le_choose 2 (Nat.le_trans length_vocabulary_le hsize)
    _ < 2 ^ 32 := by
      rw [Nat.choose_two_right]
      decide

section Alone

variable {k : Clusterer Float} {d : Document}

/-- Counted terms of a document that is alone are kept, if the settings leave out no term for being in every document. -/
theorem mem_vocabulary_of_counted (hweighting : k.settings.weighting = .frequency)
    (hshare : k.settings.maxTermShare = 1) (hdistinct : d.terms.Nodup) {term : String} (hterm : term ∈ d.terms) :
    (Extraction.lexiconAfter lex [d]).number term ∈ (k.corpusOf lex [d]).vocabulary := by
  have hspread : Extraction.spread [d] term = 1 := by simp [Extraction.spread, hterm]
  have hpair : ((Extraction.lexiconAfter lex [d]).number term, (1 : Float)) ∈
      Extraction.pairsOf k.extraction lex [d] d := by
    refine (Extraction.mem_pairsOf List.mem_cons_self).2 ⟨term, hterm, rfl, ?_, ?_⟩
    · rw [hspread, extraction, hshare]
      show ¬(1 : Float) * ((1 : Nat) : Float) < ((1 : Nat) : Float)
      decide +kernel
    · rw [hspread, extraction, hweighting, List.count_eq_one_of_mem hdistinct hterm]
      show (1 : Float) = Weighting.frequency.weight 1 1 1
      decide +kernel
  have hweight := (Extraction.weight?_ofPairs_pairsOf d).2
    ⟨(1 : Float), hpair, rfl, by decide +kernel, by decide +kernel⟩
  refine (k.corpusOf lex [d]).mem_vocabulary.2 ⟨0, ?_, ?_⟩
  · rw [k.size_corpusOf]
    exact Nat.one_pos
  · rw [corpusOf, Extraction.vector_extract _ _ _ List.getElem?_cons_zero, TermVector.contains, hweight]
    rfl

/-- Under such settings a document that is alone has as many terms in the corpus as it has different terms. -/
theorem length_vocabulary_of_counted (hweighting : k.settings.weighting = .frequency)
    (hshare : k.settings.maxTermShare = 1) (hdistinct : d.terms.Nodup) :
    (k.corpusOf lex [d]).vocabulary.length = d.terms.length := by
  have hnumbers : (d.terms.map (Extraction.lexiconAfter lex [d]).number).Nodup := by
    refine hdistinct.map_on ?_
    intro a ha b _ heq
    exact Lexicon.number_injOn (Extraction.mem_lexiconAfter List.mem_cons_self ha) heq
  have hmem : ∀ t, t ∈ (k.corpusOf lex [d]).vocabulary ↔ t ∈ d.terms.map (Extraction.lexiconAfter lex [d]).number := by
    intro t
    constructor
    · intro ht
      obtain ⟨pos, hpos, hcontains⟩ := (k.corpusOf lex [d]).mem_vocabulary.1 ht
      rw [k.size_corpusOf, List.length_singleton] at hpos
      obtain rfl : pos = 0 := by omega
      obtain ⟨term, hterm, rfl⟩ := Extraction.exists_of_contains List.getElem?_cons_zero hcontains
      exact List.mem_map_of_mem hterm
    · intro ht
      obtain ⟨term, hterm, rfl⟩ := List.mem_map.1 ht
      exact mem_vocabulary_of_counted hweighting hshare hdistinct hterm
  have hperm := (List.perm_ext_iff_of_nodup (k.corpusOf lex [d]).ascending_vocabulary.nodup hnumbers).2 hmem
  rw [hperm.length_eq, List.length_map]

/-- Under such settings a run over one document relates all pairs of its terms. -/
theorem relationSize_of_counted (hweighting : k.settings.weighting = .frequency)
    (hshare : k.settings.maxTermShare = 1) (hdistinct : d.terms.Nodup) {s : ToleranceSpace Float}
    (h : k.IsSpaceOf lex [d] s) : s.relationSize = d.terms.length.choose 2 := by
  rw [ToleranceSpace.relationSize_of_size_one h (k.size_corpusOf lex [d]),
    length_vocabulary_of_counted hweighting hshare hdistinct]

end Alone

end Clusterer

end ToleranceClustering
