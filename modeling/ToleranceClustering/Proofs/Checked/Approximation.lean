import ToleranceClustering.Clusterer
import ToleranceClustering.Proofs.Checked.Lookup
import ToleranceClustering.Proofs.Covering
import ToleranceClustering.Proofs.ToleranceRelation

/-!
# Checked seeds and approximations

Choosing seeds and approximating sets of terms looks up posting lists, class members and documents. In the space of a corpus,
local numbers are places of the vocabulary and postings are positions of documents, so that nothing is missed, for known
terms and unknown ones (`Checked.selectSeeds_eq`, `Checked.approximate_eq`, `Checked.approximateSeeds_eq`).
-/

namespace ToleranceClustering

namespace Checked

variable {α : Type} [Scalar α]

/-! ## Seeds -/

/-- A term at its local number, with its weight over the whole corpus, if it may be a seed. -/
def eligibleSeed (s : ToleranceSpace α) (c : Corpus α) (p : SeedPolicy α) (e : TermId × Nat) :
    Option (Option (TermId × α)) := do
  let positions ← s.incidence.postings[e.2]?
  if p.eligible c.size positions.length then
    let weight ← c.aggregateWeight? e.1 positions
    return some (e.1, weight)
  else return none

/-- The seeds under a policy. -/
def selectSeeds (s : ToleranceSpace α) (c : Corpus α) (p : SeedPolicy α) : Option (List TermId) := do
  let found ← s.terms.toList.zipIdx.mapM (eligibleSeed s c p)
  let eligible := found.filterMap id
  let chosen := match p.limit with
    | some k => if k < eligible.length then (Sorting.sort heavierFirst eligible).take k else eligible
    | none => eligible
  return Ascending.ofList (chosen.map Prod.fst)

/-! ## Approximations -/

/-- The positions of the documents that hold a term, none for a term outside the vocabulary. -/
def postings (s : ToleranceSpace α) (t : TermId) : Option (List Position) :=
  match s.index? t with
  | some i => s.incidence.postings[i]?
  | none => some []

/-- The document at a position with its membership, if that is positive and reaches `μ`. -/
def cover (c : Corpus α) (terms : List TermId) (μ : α) (pos : Position) : Option (Option (Position × α)) := do
  let doc ← c.documents[pos]?
  let m := membership doc.vector terms
  return if 0 < m ∧ μ ≤ m then some (pos, m) else none

/-- The upper approximation of a list of terms. -/
def approximate (s : ToleranceSpace α) (c : Corpus α) (terms : List TermId) (μ : α) : Option (Approximation α) := do
  let lists ← (Ascending.ofList terms).mapM (postings s)
  let covered ← (lists.foldr Ascending.union []).mapM (cover c (Ascending.ofList terms) μ)
  return ⟨Ascending.ofList terms, covered.filterMap id⟩

/-- The terms of a term's class, or the term alone outside the vocabulary. -/
def classTerms (s : ToleranceSpace α) (t : TermId) : Option (List TermId) :=
  match s.index? t with
  | some i => do
    let members ← s.classes[i]?
    members.mapM fun m => s.terms[m]?
  | none => some [t]

/-- The upper approximations of the classes of some seeds. -/
def approximateSeeds (s : ToleranceSpace α) (c : Corpus α) (seeds : List TermId) (μ : α) :
    Option (List (Approximation α)) :=
  seeds.mapM fun t => do
    let terms ← classTerms s t
    approximate s c terms μ

/-- The first candidates of a corpus. -/
def candidates (settings : Settings α) (s : ToleranceSpace α) (c : Corpus α) : Option (List (Candidate α)) := do
  let seeds ← selectSeeds s c settings.seeds
  let approximations ← approximateSeeds s c seeds settings.minMembership
  return Candidate.ofSeeds seeds approximations settings.minClusterSize

/-! ## Nothing is missed -/

variable {c : Corpus α} {s : ToleranceSpace α} {τ : α} {f : Measure α}

/-- The weight of a term is summed exactly if all the positions are in the corpus. -/
theorem aggregateWeight?_eq (t : TermId) (positions : List Position) :
    c.aggregateWeight? t positions =
      if ∀ pos ∈ positions, pos < c.size then some (c.aggregateWeight t positions) else none := by
  rw [Corpus.aggregateWeight?, vectorsAt?_eq, Corpus.aggregateWeight]
  split
  · rw [Option.bind_eq_bind, Option.bind_some, List.filterMap_map]
    rfl
  · rfl

/-- The posting list at the local number of a term is that of the term. -/
theorem postings_idxOf (h : ToleranceSpace.build c τ f = .ok s) {t : TermId} (ht : t ∈ c.vocabulary) :
    s.incidence.postings[c.vocabulary.idxOf t]? = some (s.postings t) := by
  have hlt : c.vocabulary.idxOf t < s.incidence.termCount := by
    rw [ToleranceSpace.termCount_incidence h]
    exact List.idxOf_lt_length_of_mem ht
  rw [getElem?_eq_getD hlt [], ToleranceSpace.postings, ToleranceSpace.index?_of_mem h ht]
  rfl

/-- Postings are positions of documents. -/
theorem lt_size_of_mem_postings (h : ToleranceSpace.build c τ f = .ok s) {t : TermId} {pos : Position}
    (hpos : pos ∈ s.postings t) : pos < c.size := by
  rw [ToleranceSpace.postings_eq_holders h] at hpos
  exact (c.mem_holders.1 hpos).1

theorem eligibleSeed_eq (h : ToleranceSpace.build c τ f = .ok s) (p : SeedPolicy α) {e : TermId × Nat}
    (he : e ∈ s.terms.toList.zipIdx) :
    eligibleSeed s c p e = some (if p.eligible c.size (s.documentFrequency e.1)
      then some (e.1, c.aggregateWeight e.1 (s.postings e.1)) else none) := by
  obtain ⟨t, i⟩ := e
  have hget : c.vocabulary[i]? = some t := by
    have hterms := List.mk_mem_zipIdx_iff_getElem?.1 he
    rwa [(ToleranceSpace.fields_of_build h).1] at hterms
  obtain ⟨hi, rfl⟩ := List.getElem?_eq_some_iff.1 hget
  have hidx : c.vocabulary.idxOf c.vocabulary[i] = i := c.ascending_vocabulary.nodup.idxOf_getElem i hi
  have hpostings := postings_idxOf h (List.getElem_mem hi)
  rw [hidx] at hpostings
  rw [eligibleSeed, bind_of_eq hpostings, aggregateWeight?_eq, if_pos fun pos hpos => lt_size_of_mem_postings h hpos,
    ToleranceSpace.documentFrequency]
  by_cases hp : p.eligible c.size (s.postings c.vocabulary[i]).length
  · rw [if_pos hp, if_pos hp]
    rfl
  · rw [if_neg hp, if_neg hp]
    rfl

/-- Filtering terms and giving them their weights is one pass over the terms with their local numbers. -/
theorem filterMap_eligible (s : ToleranceSpace α) (c : Corpus α) (p : SeedPolicy α) (ts : List TermId) (i : Nat) :
    ((ts.zipIdx i).map fun e => if p.eligible c.size (s.documentFrequency e.1)
      then some (e.1, c.aggregateWeight e.1 (s.postings e.1)) else none).filterMap id =
      (ts.filter fun t => p.eligible c.size (s.documentFrequency t)).map fun t =>
        (t, c.aggregateWeight t (s.postings t)) := by
  induction ts generalizing i with
  | nil => rfl
  | cons t ts ih =>
    rw [List.zipIdx_cons, List.map_cons, List.filter_cons]
    by_cases ht : p.eligible c.size (s.documentFrequency t)
    · rw [if_pos ht, if_pos ht, List.filterMap_cons, ih]
      rfl
    · rw [if_neg ht, if_neg ht, List.filterMap_cons, ih]
      rfl

theorem selectSeeds_eq (h : ToleranceSpace.build c τ f = .ok s) (p : SeedPolicy α) :
    selectSeeds s c p = some (s.selectSeeds c p) := by
  rw [selectSeeds, bind_of_eq (mapM_eq_some fun e he => eligibleSeed_eq h p he),
    filterMap_eligible s c p s.terms.toList 0]
  rfl

theorem postings_eq (h : ToleranceSpace.build c τ f = .ok s) (t : TermId) : postings s t = some (s.postings t) := by
  by_cases ht : t ∈ c.vocabulary
  · rw [postings, ToleranceSpace.index?_of_mem h ht]
    exact postings_idxOf h ht
  · rw [postings, ToleranceSpace.postings, ToleranceSpace.index?_of_not_mem h ht]

theorem cover_eq (terms : List TermId) (μ : α) {pos : Position} (hpos : pos < c.size) :
    cover c terms μ pos = some (c.cover? terms μ pos) := by
  rw [cover, getElem?_documents hpos]
  rfl

theorem approximate_eq (h : ToleranceSpace.build c τ f = .ok s) (terms : List TermId) (μ : α) :
    approximate s c terms μ = some (s.approximate c terms μ) := by
  have hholders : ((Ascending.ofList terms).map s.postings).foldr Ascending.union [] =
      s.holders (Ascending.ofList terms) := List.foldr_map
  have hpositions : ∀ pos ∈ s.holders (Ascending.ofList terms), pos < c.size := by
    intro pos hpos
    obtain ⟨t, -, ht⟩ := ToleranceSpace.mem_holders.1 hpos
    exact lt_size_of_mem_postings h ht
  rw [approximate, bind_of_eq (mapM_eq_some fun t _ => postings_eq h t), hholders,
    bind_of_eq (mapM_eq_some fun pos hpos => cover_eq _ μ (hpositions pos hpos)), List.filterMap_map]
  rfl

theorem size_classes (h : ToleranceSpace.build c τ f = .ok s) : s.classes.size = c.vocabulary.length := by
  have hclasses : s.classes = (ToleranceSpace.classLists s.rows.toList).toArray := by
    rw [ToleranceSpace.eq_of_build h]
  rw [hclasses, List.size_toArray, ToleranceSpace.classLists, List.length_map, List.length_zipIdx,
    ToleranceSpace.rows_of_build h, List.length_map, List.length_range]

/-- A class has a list of members, and its members have terms. -/
theorem classTerms_eq (h : ToleranceSpace.build c τ f = .ok s) (t : TermId) :
    classTerms s t = some (s.classTerms t) := by
  by_cases ht : t ∈ c.vocabulary
  · have hi := List.idxOf_lt_length_of_mem ht
    have hclass : c.vocabulary.idxOf t < s.classes.size := (size_classes h).symm ▸ hi
    have hmember : ∀ m ∈ s.classes.getD (c.vocabulary.idxOf t) [], s.terms[m]? = some (s.termAt m) := by
      intro m hm
      have hlt := (ToleranceSpace.ascending_classes h hi).2 m hm
      have hsize : s.terms.size = c.vocabulary.length := by rw [(ToleranceSpace.fields_of_build h).1, List.size_toArray]
      exact getElem?_eq_getD (hsize.symm ▸ hlt) 0
    rw [classTerms, ToleranceSpace.index?_of_mem h ht, ToleranceSpace.classTerms, ToleranceSpace.class?,
      ToleranceSpace.index?_of_mem h ht]
    simp only
    rw [bind_of_eq (getElem?_eq_getD hclass []), mapM_eq_some hmember]
    rfl
  · rw [classTerms, ToleranceSpace.index?_of_not_mem h ht, ToleranceSpace.classTerms, ToleranceSpace.class?,
      ToleranceSpace.index?_of_not_mem h ht]
    rfl

theorem approximateSeeds_eq (h : ToleranceSpace.build c τ f = .ok s) (seeds : List TermId) (μ : α) :
    approximateSeeds s c seeds μ = some (s.approximateSeeds c seeds μ) := by
  refine mapM_eq_some ?_
  intro t _
  rw [bind_of_eq (classTerms_eq h t), approximate_eq h]

theorem candidates_eq (h : ToleranceSpace.build c τ f = .ok s) (settings : Settings α) :
    candidates settings s c = some (Clusterer.candidates settings s c) := by
  rw [candidates, bind_of_eq (selectSeeds_eq h settings.seeds), approximateSeeds_eq h]
  rfl

end Checked

end ToleranceClustering
