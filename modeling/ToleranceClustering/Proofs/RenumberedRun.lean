import Mathlib.Data.List.InsertIdx
import ToleranceClustering.Proofs.Contributions
import ToleranceClustering.Proofs.FirstCandidates
import ToleranceClustering.Proofs.Renumbering
import ToleranceClustering.Proofs.ToleranceRelation

/-!
# A run under other numbers

Every phase of a run takes a renumbered corpus to the renumbered result: the tolerance space, the seeds, the first
candidates, the merges, the ranking and the topics. Ties are settled by the order of the numbers, and a renumbering
keeps that. The labels also look at the texts of the terms, which have to be the same (`clusterCorpus_renumber`).
-/

namespace ToleranceClustering

/-- The place of an element in a list stays the same under an injective map. -/
theorem idxOf_map_of_injective {f : ℕ → ℕ} (hf : Function.Injective f) (xs : List ℕ) (a : ℕ) :
    (xs.map f).idxOf (f a) = xs.idxOf a := by
  induction xs with
  | nil => rfl
  | cons x xs ih =>
    rw [List.map_cons, List.idxOf_cons, List.idxOf_cons, ih]
    by_cases h : x = a
    · simp [h]
    · have hne : f x ≠ f a := fun he => h (hf he)
      simp [beq_false_of_ne h, beq_false_of_ne hne]

variable {α : Type} [Scalar α] (ρ : ℕ ↪o ℕ)

/-! ## The tolerance space -/

namespace ToleranceSpace

variable {c : Corpus α} {τ : α} {f : Measure α} {s : ToleranceSpace α}

/-- The space with its terms renumbered. Local numbers stay as they are. -/
def renumber (s : ToleranceSpace α) : ToleranceSpace α := { s with terms := s.terms.map ρ }

/-- Local numbers are places in the vocabulary, so they do not change. -/
theorem numbered_renumber (c : Corpus α) : numbered (c.renumber ρ) = numbered c := by
  unfold numbered
  rw [Corpus.vectors_renumber, Corpus.vocabulary_renumber, List.map_map]
  refine List.map_congr_left ?_
  intro v _
  rw [Function.comp_apply, TermVector.terms_renumber, List.map_map]
  exact List.map_congr_left fun t _ => idxOf_map_of_injective ρ.injective c.vocabulary t

/-- The space of a renumbered corpus is the renumbered space. -/
theorem build_renumber (h : build c τ f = .ok s) : build (c.renumber ρ) τ f = .ok (s.renumber ρ) := by
  have hτ := (Failure.of_unless_bind h).1
  obtain ⟨s', hs'⟩ := exists_build (c.renumber ρ) hτ f
  rw [hs', eq_of_build hs', eq_of_build h, numbered_renumber, Corpus.vocabulary_renumber, List.length_map]
  unfold renumber
  rw [List.map_toArray]

include s in
/-- A term has the local number that it had under its old number, if any. -/
theorem index?_renumber (h : build c τ f = .ok s) (t : TermId) : (s.renumber ρ).index? (ρ t) = s.index? t := by
  by_cases ht : t ∈ c.vocabulary
  · have ht' : ρ t ∈ (c.renumber ρ).vocabulary := by
      rw [Corpus.vocabulary_renumber]
      exact List.mem_map_of_mem ht
    rw [index?_of_mem h ht, index?_of_mem (build_renumber ρ h) ht', Corpus.vocabulary_renumber,
      idxOf_map_of_injective ρ.injective]
  · have ht' : ρ t ∉ (c.renumber ρ).vocabulary := by
      rw [Corpus.vocabulary_renumber, List.mem_map_of_injective ρ.injective]
      exact ht
    rw [index?_of_not_mem h ht, index?_of_not_mem (build_renumber ρ h) ht']

/-- The documents of a term are the same. -/
theorem postings_renumber (h : build c τ f = .ok s) (t : TermId) : (s.renumber ρ).postings (ρ t) = s.postings t := by
  unfold postings
  rw [index?_renumber ρ h]
  rfl

/-- At a local number stands the renumbered term. -/
theorem termAt_renumber (h : build c τ f = .ok s) {i : ℕ} (hi : i < c.vocabulary.length) :
    (s.renumber ρ).termAt i = ρ (s.termAt i) := by
  have hlen : i < s.terms.toList.length := by
    rw [(fields_of_build h).1]
    exact hi
  unfold termAt renumber
  rw [Array.getD_eq_getD_getElem?, Array.getD_eq_getD_getElem?, Array.getElem?_map, ← Array.getElem?_toList,
    List.getElem?_eq_getElem hlen]
  rfl

/-- The class of a renumbered term is the renumbered class, also for a term outside the vocabulary. -/
theorem classTerms_renumber (h : build c τ f = .ok s) (t : TermId) :
    (s.renumber ρ).classTerms (ρ t) = (s.classTerms t).map ρ := by
  unfold classTerms class?
  rw [index?_renumber ρ h]
  by_cases ht : t ∈ c.vocabulary
  · rw [index?_of_mem h ht]
    have hbound := (ascending_classes h (List.idxOf_lt_length_of_mem ht)).2
    simp only [Option.map_some, classAt, List.map_map]
    refine List.map_congr_left ?_
    intro j hj
    exact termAt_renumber ρ h (hbound j hj)
  · rw [index?_of_not_mem h ht]
    rfl

/-- The documents of some terms are the same. -/
theorem holders_renumber (h : build c τ f = .ok s) (terms : List TermId) :
    (s.renumber ρ).holders (terms.map ρ) = s.holders terms := by
  unfold holders
  rw [List.foldr_map]
  simp only [postings_renumber ρ h]

end ToleranceSpace

/-! ## Approximations -/

/-- The approximation with its terms renumbered. -/
def Approximation.renumber (a : Approximation α) : Approximation α := { a with terms := a.terms.map ρ }

/-- The same documents are covered by the renumbered terms, with the same memberships. -/
theorem Corpus.cover?_renumber (c : Corpus α) (terms : List TermId) (μ : α) :
    (c.renumber ρ).cover? (terms.map ρ) μ = c.cover? terms μ := by
  funext pos
  unfold Corpus.cover?
  rw [Corpus.vector_renumber, membership_renumber]

namespace ToleranceSpace

variable {c : Corpus α} {τ : α} {f : Measure α} {s : ToleranceSpace α}

/-- The approximation of renumbered terms. -/
theorem approximate_renumber (h : build c τ f = .ok s) (terms : List TermId) (μ : α) :
    (s.renumber ρ).approximate (c.renumber ρ) (terms.map ρ) μ = (s.approximate c terms μ).renumber ρ := by
  unfold approximate Approximation.renumber
  simp only
  rw [← Ascending.map_ofList, holders_renumber ρ h, Corpus.cover?_renumber]

/-- The approximations of renumbered seeds. -/
theorem approximateSeeds_renumber (h : build c τ f = .ok s) (seeds : List TermId) (μ : α) :
    (s.renumber ρ).approximateSeeds (c.renumber ρ) (seeds.map ρ) μ =
      (s.approximateSeeds c seeds μ).map (Approximation.renumber ρ) := by
  unfold approximateSeeds
  rw [List.map_map, List.map_map]
  refine List.map_congr_left ?_
  intro t _
  rw [Function.comp_apply, Function.comp_apply, classTerms_renumber ρ h, approximate_renumber ρ h]

/-! ## Seeds -/

/-- Of two terms the same is the heavier; terms of the same weight are in the order of their numbers, old or new. -/
theorem heavierFirst_renumber (a b : TermId × α) :
    heavierFirst (Table.renumberEntry ρ a) (Table.renumberEntry ρ b) = heavierFirst a b := by
  unfold heavierFirst Table.renumberEntry
  rw [compare_renumber]

/-- The same terms may be seeds. -/
theorem eligibleSeeds_renumber (h : build c τ f = .ok s) (p : SeedPolicy α) :
    (s.renumber ρ).eligibleSeeds (c.renumber ρ) p = (s.eligibleSeeds c p).map (Table.renumberEntry ρ) := by
  have hterms : (s.renumber ρ).terms.toList = s.terms.toList.map ρ := Array.toList_map
  unfold eligibleSeeds documentFrequency
  rw [hterms, List.filter_map, List.map_map, List.map_map]
  simp only [Function.comp_def, postings_renumber ρ h, Corpus.size_renumber, Corpus.aggregateWeight_renumber]
  rfl

/-- The seeds of a renumbered corpus are the renumbered seeds. -/
theorem selectSeeds_renumber (h : build c τ f = .ok s) (p : SeedPolicy α) :
    (s.renumber ρ).selectSeeds (c.renumber ρ) p = (s.selectSeeds c p).map ρ := by
  have hsort : (Sorting.sort heavierFirst (s.eligibleSeeds c p)).map (Table.renumberEntry ρ) =
      Sorting.sort heavierFirst ((s.eligibleSeeds c p).map (Table.renumberEntry ρ)) :=
    Sorting.map_sort _ _ fun a _ b _ => heavierFirst_renumber ρ a b
  unfold selectSeeds
  simp only [eligibleSeeds_renumber ρ h]
  rw [Ascending.map_ofList, ← Table.keys_renumberEntry, List.length_map, ← hsort]
  refine congrArg (fun chosen : List (TermId × α) => Ascending.ofList (chosen.map Prod.fst)) ?_
  cases p.limit with
  | none => rfl
  | some k =>
    simp only
    split
    · exact List.map_take.symm
    · rfl

end ToleranceSpace

/-! ## Candidates -/

namespace Candidate

omit [Scalar α]

/-- The candidate with its terms renumbered. -/
def renumber (a : Candidate α) : Candidate α :=
  { a with seeds := a.seeds.map ρ, approximation := a.approximation.renumber ρ }

/-- The first seed of a renumbered candidate. -/
theorem firstSeed?_renumber (a : Candidate α) : (a.renumber ρ).firstSeed? = a.firstSeed?.map ρ := List.head?_map

/-- Candidates compare by their first seeds as before. -/
theorem bySeed_renumber (a b : Candidate α) : bySeed (a.renumber ρ) (b.renumber ρ) = bySeed a b := by
  unfold bySeed
  rw [firstSeed?_renumber, firstSeed?_renumber, compare_map_renumber]
  rfl

/-- The first candidates of renumbered seeds get the same ids, since they stay in the same order. -/
theorem ofSeeds_renumber (seeds : List TermId) (approximations : List (Approximation α)) (minSize : ℕ) :
    ofSeeds (seeds.map ρ) (approximations.map (Approximation.renumber ρ)) minSize =
      (ofSeeds seeds approximations minSize).map (renumber ρ) := by
  unfold ofSeeds
  simp only [List.zip_map, List.filter_map, List.map_map]
  have hlarge : ((seeds.zip approximations).filter ((fun p => decide (minSize ≤ p.2.size)) ∘
        Prod.map ρ (Approximation.renumber ρ))) =
      (seeds.zip approximations).filter fun p => decide (minSize ≤ p.2.size) := rfl
  rw [hlarge]
  generalize (seeds.zip approximations).filter (fun p => decide (minSize ≤ p.2.size)) = large
  have hsort : (Sorting.sort bySeed (large.map fun p => (⟨0, [p.1], p.2⟩ : Candidate α))).map (renumber ρ) =
      Sorting.sort bySeed ((large.map fun p => (⟨0, [p.1], p.2⟩ : Candidate α)).map (renumber ρ)) :=
    Sorting.map_sort _ _ fun a _ b _ => bySeed_renumber ρ a b
  rw [List.map_map] at hsort
  have hstart : (large.map ((fun p => (⟨0, [p.1], p.2⟩ : Candidate α)) ∘ Prod.map ρ (Approximation.renumber ρ))) =
      large.map (renumber ρ ∘ fun p => ⟨0, [p.1], p.2⟩) := rfl
  rw [hstart, ← hsort, List.zipIdx_map, List.map_map]
  rfl

end Candidate

/-! ## Merging -/

namespace OverlapTable

/-- Overlaps are those of documents, so they do not change. -/
theorem ofCandidates_renumber (cs : List (Candidate α)) :
    ofCandidates (cs.map (Candidate.renumber ρ)) = ofCandidates cs := by
  unfold ofCandidates
  rw [List.zipIdx_map, List.map_map]
  refine List.map_congr_left ?_
  rintro ⟨a, i⟩ _
  simp only [Function.comp_apply, Prod.map_apply, List.map_map]
  rfl

/-- Neither do they when a row is computed anew. -/
theorem refresh_renumber (t : OverlapTable α) (cs : List (Candidate α)) (i : ℕ) :
    t.refresh (cs.map (Candidate.renumber ρ)) i = t.refresh cs i := by
  unfold refresh
  rw [List.getElem?_map]
  cases cs[i]? with
  | none => rfl
  | some kept =>
    simp only [Option.map_some, List.map_map]
    rfl

end OverlapTable

namespace Agglomeration

variable {c : Corpus α} {τ : α} {f : Measure α} {s : ToleranceSpace α}

/-- Absorbing renumbered candidates gives the renumbered candidate. -/
theorem absorb_renumber (h : ToleranceSpace.build c τ f = .ok s) (μ : α) (kept absorbed : Candidate α) :
    absorb (s.renumber ρ) (c.renumber ρ) μ (kept.renumber ρ) (absorbed.renumber ρ) =
      (absorb s c μ kept absorbed).renumber ρ := by
  have happroximation := s.approximate_renumber ρ h (kept.approximation.terms ++ absorbed.approximation.terms) μ
  unfold absorb Candidate.renumber
  simp only [Ascending.map_ofList, List.map_append] at happroximation ⊢
  rw [← happroximation]
  rfl

/-- Merging a pair of renumbered candidates gives the renumbered candidates, and the same step. -/
theorem mergePair_renumber (h : ToleranceSpace.build c τ f = .ok s) (μ : α) (cs : List (Candidate α))
    (p : OverlapPair α) :
    mergePair (s.renumber ρ) (c.renumber ρ) μ (cs.map (Candidate.renumber ρ)) p =
      (mergePair s c μ cs p).map fun r => (r.1.map (Candidate.renumber ρ), r.2) := by
  unfold mergePair
  rw [List.getElem?_map, List.getElem?_map]
  cases cs[p.first]? with
  | none => rfl
  | some kept =>
    cases cs[p.second]? with
    | none => rfl
    | some absorbed =>
      simp only [Option.map_some]
      rw [absorb_renumber ρ h, List.eraseIdx_map, ← List.map_set]
      rfl

/-- From the same table the same pairs are merged, one after another. -/
theorem mergeFrom_renumber (h : ToleranceSpace.build c τ f = .ok s) (rule : MergeRule α) (fuel : ℕ)
    (table : OverlapTable α) (cs : List (Candidate α)) :
    mergeFrom (s.renumber ρ) (c.renumber ρ) rule fuel table (cs.map (Candidate.renumber ρ)) =
      ((mergeFrom s c rule fuel table cs).1.map (Candidate.renumber ρ), (mergeFrom s c rule fuel table cs).2) := by
  induction fuel generalizing table cs with
  | zero => rfl
  | succ fuel ih =>
    unfold mergeFrom
    cases table.bestPair? rule.threshold with
    | none => rfl
    | some p =>
      simp only
      rw [mergePair_renumber ρ h]
      cases mergePair s c rule.minMembership cs p with
      | none => rfl
      | some r =>
        obtain ⟨merged, step⟩ := r
        simp only [Option.map_some]
        rw [OverlapTable.refresh_renumber, ih]

/-- Renumbered candidates merge in the same steps. -/
theorem merge_renumber (h : ToleranceSpace.build c τ f = .ok s) (rule : MergeRule α) (cs : List (Candidate α)) :
    merge (s.renumber ρ) (c.renumber ρ) rule (cs.map (Candidate.renumber ρ)) =
      ((merge s c rule cs).1.map (Candidate.renumber ρ), (merge s c rule cs).2) := by
  unfold merge
  rw [OverlapTable.ofCandidates_renumber, List.length_map]
  exact mergeFrom_renumber ρ h rule _ _ _

end Agglomeration

/-! ## Ranking -/

namespace Ranking

/-- A ranked candidate with its terms renumbered. -/
def renumber (r : Candidate α × Score α) : Candidate α × Score α := (r.1.renumber ρ, r.2)

/-- Renumbered candidates rank as before. -/
theorem rank_renumber (cs : List (Candidate α)) :
    rank (cs.map (Candidate.renumber ρ)) = (rank cs).map (renumber ρ) := by
  have hbest : ∀ a b : Candidate α × Score α, bestFirst (renumber ρ a) (renumber ρ b) = bestFirst a b := by
    intro a b
    unfold bestFirst renumber
    rw [Candidate.firstSeed?_renumber, Candidate.firstSeed?_renumber, compare_map_renumber]
  unfold rank
  rw [Sorting.map_sort (renumber ρ) _ fun a _ b _ => hbest a b, List.map_map, List.map_map]
  rfl

end Ranking

/-! ## Labels -/

/-- The topic with its terms renumbered. -/
def Topic.renumber (t : Topic α) : Topic α :=
  { t with seeds := t.seeds.map ρ, terms := t.terms.map ρ, labels := t.labels.map ρ }

namespace Labeler

omit [Scalar α] in
/-- The same terms may describe a topic. -/
theorem admits_renumber (topic : Topic α) (t : TermId) : admits (topic.renumber ρ) (ρ t) = admits topic t := by
  unfold admits Topic.renumber
  simp only [List.isEmpty_map]
  rw [contains_map_renumber]

/-- The shares of a document in a topic are those of the renumbered terms. -/
theorem shares_renumber (topic : Topic α) (v : TermVector α) :
    shares (topic.renumber ρ) (v.renumber ρ) = (shares topic v).map (Table.renumberEntry ρ) := by
  have hadmits : ∀ e : ℕ × α, admits (topic.renumber ρ) (Table.renumberEntry ρ e).1 = admits topic e.1 :=
    fun e => admits_renumber ρ topic e.1
  unfold shares
  rw [TermVector.total_renumber, TermVector.entries_renumber, List.filter_map]
  simp only [Function.comp_def, hadmits]
  split
  · rfl
  · rw [List.map_map, List.map_map]
    rfl

/-- The contributions to a topic are those of the renumbered terms. -/
theorem contributions_renumber (topic : Topic α) (c : Corpus α) :
    contributions (topic.renumber ρ) (c.renumber ρ) = (contributions topic c).renumber ρ := by
  have hshares : allShares (topic.renumber ρ) (c.renumber ρ) =
      (allShares topic c).map (Table.renumberEntry ρ) := by
    rw [allShares, allShares, List.map_flatMap]
    refine List.flatMap_congr ?_
    intro pos _
    rw [Corpus.vector_renumber, shares_renumber]
  rw [contributions_eq, contributions_eq, hshares, TermVector.renumber_foldl_accumulate, Table.renumber_empty]

/-- A label is a term of the corpus. -/
theorem mem_vocabulary_of_label {topic : Topic α} {c : Corpus α} {lex : Lexicon} {limit : ℕ} {t : TermId}
    (h : t ∈ byCohesion topic c lex limit) : t ∈ c.vocabulary := by
  obtain ⟨e, he, rfl⟩ := List.mem_map.1 h
  have hsorted := (Sorting.perm_sort _ _).mem_iff.1 (List.mem_of_mem_take he)
  exact mem_vocabulary_of_contribution (List.mem_map_of_mem (List.mem_filter.1 hsorted).1)

/-- The labels are renumbered too, as long as the terms of the corpus have the same texts under their new numbers. -/
theorem byCohesion_renumber {c : Corpus α} {lex lex' : Lexicon}
    (hlex : ∀ t ∈ c.vocabulary, lex'.term? (ρ t) = lex.term? t)
    (topic : Topic α) (limit : ℕ) :
    byCohesion (topic.renumber ρ) (c.renumber ρ) lex' limit = (byCohesion topic c lex limit).map ρ := by
  have hpositive : ((contributions topic c).entries.map (Table.renumberEntry ρ)).filter (fun e => decide (0 < e.2)) =
      ((contributions topic c).entries.filter fun e => decide (0 < e.2)).map (Table.renumberEntry ρ) := List.filter_map
  have htext : ∀ e ∈ (contributions topic c).entries.filter (fun e => decide (0 < e.2)),
      lex'.term? (ρ e.1) = lex.term? e.1 := by
    intro e he
    exact hlex e.1 (mem_vocabulary_of_contribution (List.mem_map_of_mem (List.mem_filter.1 he).1))
  have hsort : (Sorting.sort (strongerFirst lex) ((contributions topic c).entries.filter fun e => decide (0 < e.2))).map
        (Table.renumberEntry ρ) =
      Sorting.sort (strongerFirst lex')
        (((contributions topic c).entries.filter fun e => decide (0 < e.2)).map (Table.renumberEntry ρ)) := by
    refine Sorting.map_sort _ _ ?_
    intro a ha b hb
    unfold strongerFirst Table.renumberEntry
    simp only [htext a ha, htext b hb, compare_renumber]
  unfold byCohesion chosen
  rw [contributions_renumber]
  simp only [Table.renumber]
  rw [hpositive, ← hsort, ← List.map_take, Table.keys_renumberEntry]

end Labeler

/-! ## Topics -/

namespace Clusterer

variable {c : Corpus α} {τ : α} {f : Measure α} {s : ToleranceSpace α} {lex lex' : Lexicon}

/-- The topic of a renumbered candidate, not yet labelled. -/
theorem topicOf_renumber (r : Candidate α × Score α) :
    topicOf (c.renumber ρ) (Ranking.renumber ρ r) = (topicOf c r).renumber ρ := by
  unfold topicOf Topic.renumber
  simp only [Corpus.id_renumber]
  rfl

/-- A renumbered topic gets the renumbered labels, and the same text. -/
theorem labelTopic_renumber (hlex : ∀ t ∈ c.vocabulary, lex'.term? (ρ t) = lex.term? t) (limit : ℕ) (t : Topic α) :
    labelTopic Labeler.byCohesion (c.renumber ρ) lex' limit (t.renumber ρ) =
      (labelTopic Labeler.byCohesion c lex limit t).renumber ρ := by
  have hlabels := Labeler.byCohesion_renumber ρ hlex t limit
  have htexts : ((Labeler.byCohesion t c lex limit).map ρ).filterMap lex'.term? =
      (Labeler.byCohesion t c lex limit).filterMap lex.term? := by
    rw [List.filterMap_map]
    exact List.filterMap_congr fun u hu => hlex u (Labeler.mem_vocabulary_of_label hu)
  unfold labelTopic Topic.labelTerms
  simp only [hlabels, htexts]
  rfl

/-- The same documents are left over, with the same memberships. -/
theorem uncovered_renumber (c : Corpus α) (topics : List (Topic α)) :
    uncovered (c.renumber ρ) (topics.map (Topic.renumber ρ)) = uncovered c topics := by
  have hbest : ∀ pos,
      bestMembership (c.renumber ρ) (topics.map (Topic.renumber ρ)) pos = bestMembership c topics pos := by
    intro pos
    unfold bestMembership
    rw [List.map_map, Corpus.vector_renumber]
    refine congrArg (List.foldl Scalar.max 0) (List.map_congr_left ?_)
    intro t _
    exact membership_renumber ρ (c.vector pos) t.terms
  unfold uncovered
  simp only [Corpus.size_renumber, Corpus.id_renumber, hbest, List.flatMap_map]
  rfl

/-- The clustering with its terms renumbered. -/
def renumberClustering (r : Clustering α) : Clustering α := { r with topics := r.topics.map (Topic.renumber ρ) }

/-- The first candidates of a renumbered corpus are the renumbered ones. -/
theorem candidates_renumber (h : ToleranceSpace.build c τ f = .ok s) (settings : Settings α) :
    candidates settings (s.renumber ρ) (c.renumber ρ) = (candidates settings s c).map (Candidate.renumber ρ) := by
  unfold candidates
  simp only [ToleranceSpace.selectSeeds_renumber ρ h, ToleranceSpace.approximateSeeds_renumber ρ h,
    Candidate.ofSeeds_renumber]

/-- Clustering a renumbered corpus gives the renumbered clustering, if the terms have the same texts. -/
theorem clusterCorpus_renumber {k : Clusterer α} (hk : k.labeler = Labeler.byCohesion)
    (h : ToleranceSpace.build c τ f = .ok s) (hlex : ∀ t ∈ c.vocabulary, lex'.term? (ρ t) = lex.term? t) :
    k.clusterCorpus lex' (c.renumber ρ) (s.renumber ρ) = renumberClustering ρ (k.clusterCorpus lex c s) := by
  have htopics : ∀ rs : List (Candidate α × Score α),
      (rs.map (Ranking.renumber ρ)).map
          (fun r => labelTopic Labeler.byCohesion (c.renumber ρ) lex' k.settings.maxLabels (topicOf (c.renumber ρ) r)) =
        (rs.map fun r => labelTopic Labeler.byCohesion c lex k.settings.maxLabels (topicOf c r)).map
          (Topic.renumber ρ) := by
    intro rs
    rw [List.map_map, List.map_map]
    refine List.map_congr_left ?_
    intro r _
    rw [Function.comp_apply, Function.comp_apply, topicOf_renumber, labelTopic_renumber ρ hlex]
  unfold clusterCorpus renumberClustering
  simp only [hk, candidates_renumber ρ h, Agglomeration.merge_renumber ρ h, Ranking.rank_renumber, htopics,
    uncovered_renumber]

end Clusterer

end ToleranceClustering
