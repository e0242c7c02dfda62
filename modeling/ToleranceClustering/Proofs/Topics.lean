import ToleranceClustering.Proofs.Binary64.Laws
import ToleranceClustering.Proofs.ClusterRun
import ToleranceClustering.Proofs.MergeForest

/-!
# Topics are the approximations of their seeds

Every candidate of a run is the upper approximation of the classes of its seeds and large enough: the first ones by
construction, and a merged one because approximating the joined terms anew is approximating the classes of the joined
seeds, which covers no fewer documents. Ranking and labelling change none of this, so it holds of the topics.
-/

namespace ToleranceClustering

open Agglomeration MergeState

variable {α : Type} [Scalar α] {settings : Settings α} {c : Corpus α} {s : ToleranceSpace α}

/-! ## Candidates -/

/-- The terms of the classes of some seeds. -/
def ToleranceSpace.classUnion (s : ToleranceSpace α) (seeds : List TermId) : List TermId := seeds.flatMap s.classTerms

/-- What every candidate of a run keeps to. -/
structure Candidate.Sound (settings : Settings α) (s : ToleranceSpace α) (c : Corpus α) (a : Candidate α) : Prop where
  seeds_ne : a.seeds ≠ []
  ascending : Ascending a.seeds
  known : ∀ t ∈ a.seeds, t ∈ c.vocabulary
  approximation : a.approximation = c.approximate (s.classUnion a.seeds) settings.minMembership
  large : settings.minClusterSize ≤ a.approximation.size

/-- The rule by which a run merges. -/
def Settings.mergeRule (settings : Settings α) : MergeRule α := ⟨settings.mergeThreshold, settings.minMembership⟩

section Rounded

variable [Scalar.Rounded α] {τ : α} {f : Measure α}

theorem sound_of_mem_candidates (h : ToleranceSpace.build c τ f = .ok s) :
    ∀ a ∈ Clusterer.candidates settings s c, a.Sound settings s c := by
  intro a ha
  obtain ⟨t, ht, hseeds, happ⟩ := Clusterer.exists_of_mem_candidates ha
  obtain ⟨hsel, hlarge⟩ := Clusterer.mem_largeSeeds.1 ht
  refine ⟨?_, ?_, ?_, ?_, ?_⟩
  · rw [hseeds]
    exact List.cons_ne_nil t []
  · rw [hseeds]
    exact List.pairwise_singleton _ t
  · intro u hu
    rw [hseeds, List.mem_singleton] at hu
    rw [hu]
    exact ToleranceSpace.mem_vocabulary_of_mem_selectSeeds h hsel
  · rw [happ, ToleranceSpace.approximate_eq_approximate h, hseeds, ToleranceSpace.classUnion, List.flatMap_singleton]
  · rw [happ]
    exact hlarge

/-- Absorbing keeps a candidate the approximation of its seeds. -/
theorem Candidate.Sound.absorb (h : ToleranceSpace.build c τ f = .ok s) {a b : Candidate α} (ha : a.Sound settings s c)
    (hb : b.Sound settings s c) : (Agglomeration.absorb s c settings.minMembership a b).Sound settings s c := by
  have hseed : ∀ t, t ∈ (Agglomeration.absorb s c settings.minMembership a b).seeds ↔ t ∈ a.seeds ∨ t ∈ b.seeds := by
    intro t
    rw [Agglomeration.absorb, Ascending.mem_ofList, List.mem_append]
  have hterms : ∀ u, u ∈ a.approximation.terms ++ b.approximation.terms ↔
      u ∈ s.classUnion (Agglomeration.absorb s c settings.minMembership a b).seeds := by
    intro u
    rw [List.mem_append, ha.approximation, hb.approximation]
    simp only [Corpus.approximate, Ascending.mem_ofList, ToleranceSpace.classUnion, List.mem_flatMap, hseed]
    constructor
    · rintro (⟨t, ht, hu⟩ | ⟨t, ht, hu⟩)
      · exact ⟨t, Or.inl ht, hu⟩
      · exact ⟨t, Or.inr ht, hu⟩
    · rintro ⟨t, ht | ht, hu⟩
      · exact Or.inl ⟨t, ht, hu⟩
      · exact Or.inr ⟨t, ht, hu⟩
  have happ : (Agglomeration.absorb s c settings.minMembership a b).approximation =
      c.approximate (s.classUnion (Agglomeration.absorb s c settings.minMembership a b).seeds)
        settings.minMembership := by
    rw [← c.approximate_congr hterms, ← ToleranceSpace.approximate_eq_approximate h]
    rfl
  refine ⟨?_, Ascending.ascending_ofList _, ?_, happ, ?_⟩
  · obtain ⟨t, ht⟩ := List.exists_mem_of_ne_nil _ ha.seeds_ne
    exact List.ne_nil_of_mem ((hseed t).2 (Or.inl ht))
  · intro t ht
    rcases (hseed t).1 ht with ht | ht
    · exact ha.known t ht
    · exact hb.known t ht
  · -- the classes of more seeds cover no fewer documents
    calc settings.minClusterSize ≤ a.approximation.size := ha.large
      _ = (c.approximate (s.classUnion a.seeds) settings.minMembership).size := by rw [← ha.approximation]
      _ ≤ _ := c.size_le_size (fun u hu => ?_) settings.minMembership
      _ = _ := by rw [← happ]
    obtain ⟨t, ht, hu⟩ := List.mem_flatMap.1 hu
    exact List.mem_flatMap.2 ⟨t, (hseed t).2 (Or.inl ht), hu⟩

theorem sound_of_reaches (h : ToleranceSpace.build c τ f = .ok s) {history : List (MergeStep α)} {st : MergeState α}
    (hr : Reaches s c settings.mergeRule (Clusterer.candidates settings s c) history st) :
    ∀ a ∈ st.candidates, a.Sound settings s c :=
  forall_of_reaches (sound_of_mem_candidates h) (fun _ _ => Candidate.Sound.absorb h) hr

end Rounded

/-- No two candidates that are left have a seed in common. -/
theorem disjoint_seeds_of_reaches {history : List (MergeStep α)} {st : MergeState α}
    (hr : Reaches s c settings.mergeRule (Clusterer.candidates settings s c) history st) :
    st.candidates.Pairwise fun a b => ∀ t ∈ a.seeds, t ∉ b.seeds := by
  have hids := Clusterer.ids_candidates settings s c
  refine (shared_of_survivors (f := Candidate.seeds) (fun _ _ => rfl) hids hr).imp fun {a b} hshared t hta htb => ?_
  obtain ⟨d, hd, e, he, hne, htd, hte⟩ := hshared t hta htb
  obtain ⟨u, -, hu, -⟩ := Clusterer.exists_of_mem_candidates hd
  obtain ⟨w, -, hw, -⟩ := Clusterer.exists_of_mem_candidates he
  rw [hu, List.mem_singleton] at htd
  rw [hw, List.mem_singleton] at hte
  have hsame : d.seeds = e.seeds := by rw [hu, hw, ← htd, ← hte]
  have hnodup : ((Clusterer.candidates settings s c).map Candidate.seeds).Nodup :=
    List.pairwise_map.2 Clusterer.pairwise_candidates
  exact hne (congrArg Candidate.id (List.inj_on_of_nodup_map hnodup hd he hsame))

/-- The seeds of the candidates that are left are those of the first candidates. -/
theorem mem_seeds_of_reaches {history : List (MergeStep α)} {st : MergeState α}
    (hr : Reaches s c settings.mergeRule (Clusterer.candidates settings s c) history st) (t : TermId) :
    (∃ a ∈ st.candidates, t ∈ a.seeds) ↔ t ∈ Clusterer.largeSeeds settings s c := by
  rw [exists_mem_survivor (f := Candidate.seeds) (fun _ _ => rfl) (Clusterer.ids_candidates settings s c) hr]
  constructor
  · rintro ⟨d, hd, ht⟩
    obtain ⟨u, hu, hseeds, -⟩ := Clusterer.exists_of_mem_candidates hd
    rw [hseeds, List.mem_singleton] at ht
    exact ht ▸ hu
  · intro ht
    obtain ⟨a, ha, hseeds⟩ := Clusterer.exists_candidate ht
    refine ⟨a, ha, ?_⟩
    rw [hseeds]
    exact List.mem_singleton_self t

/-! ## Topics -/

/-- A topic that is the upper approximation of its seeds: its terms are those of the seeds' classes, and its members are
the documents that these terms cover, each with its membership. -/
structure Topic.Exact (c : Corpus α) (s : ToleranceSpace α) (settings : Settings α) (t : Topic α) : Prop where
  seeds_ne : t.seeds ≠ []
  seeds_ascending : Ascending t.seeds
  seeds_known : ∀ x ∈ t.seeds, ∃ cls, s.class? x = some cls
  terms_ascending : Ascending t.terms
  mem_terms : ∀ u, u ∈ t.terms ↔ ∃ x ∈ t.seeds, ∃ cls, s.class? x = some cls ∧ u ∈ cls.members
  positions_ascending : Ascending t.positions
  mem_members : ∀ m, m ∈ t.members ↔ m.position < c.size ∧ 0 < m.membership ∧ settings.minMembership ≤ m.membership ∧
    m.membership = membership (c.vector m.position) t.terms ∧ m.document = c.id m.position
  large : settings.minClusterSize ≤ t.size

theorem Topic.Exact.lt_size {t : Topic α} (h : t.Exact c s settings) {pos : Position} (hpos : pos ∈ t.positions) :
    pos < c.size := by
  obtain ⟨m, hm, rfl⟩ := List.mem_map.1 hpos
  exact ((h.mem_members m).1 hm).1

namespace Clusterer

/-- The members of the topic that a candidate becomes. -/
def membersOf (c : Corpus α) (a : Candidate α) : List (Member α) :=
  a.approximation.members.map fun p => ⟨c.id p.1, p.1, p.2⟩

/-- The topic that a candidate becomes. -/
def topicFrom (k : Clusterer α) (lex : Lexicon) (c : Corpus α) (a : Candidate α) : Topic α :=
  labelTopic k.labeler c lex k.settings.maxLabels (topicOf c (a, Score.ofCandidate a))

theorem size_topicFrom (k : Clusterer α) (lex : Lexicon) (c : Corpus α) (a : Candidate α) :
    (k.topicFrom lex c a).size = a.size := List.length_map _

/-- The topics are those of the ranked candidates, in their order. -/
theorem topics_eq (k : Clusterer α) (lex : Lexicon) (c : Corpus α) (s : ToleranceSpace α) :
    (k.clusterCorpus lex c s).topics =
      (Ranking.rank (merge s c k.settings.mergeRule (candidates k.settings s c)).1).map fun r =>
        labelTopic k.labeler c lex k.settings.maxLabels (topicOf c r) := rfl

/-- The topics are those that the candidates left become, in another order. -/
theorem perm_topicFrom (k : Clusterer α) (lex : Lexicon) (c : Corpus α) (s : ToleranceSpace α) :
    (k.clusterCorpus lex c s).topics.Perm
      ((merge s c k.settings.mergeRule (candidates k.settings s c)).1.map (k.topicFrom lex c)) := by
  rw [topics_eq]
  refine ((Sorting.perm_sort Ranking.bestFirst _).map _).trans ?_
  rw [List.map_map]
  exact List.Perm.refl _

/-- Seeds, terms and members of the topics are those of the candidates that are left, in another order. -/
theorem perm_topics (k : Clusterer α) (lex : Lexicon) (c : Corpus α) (s : ToleranceSpace α) :
    ((k.clusterCorpus lex c s).topics.map fun t => (t.seeds, t.terms, t.members)).Perm
      ((merge s c k.settings.mergeRule (candidates k.settings s c)).1.map fun a =>
        (a.seeds, a.approximation.terms, membersOf c a)) := by
  refine ((k.perm_topicFrom lex c s).map _).trans ?_
  rw [List.map_map]
  exact List.Perm.refl _

/-- Every candidate that is left becomes a topic. -/
theorem length_topics (k : Clusterer α) (lex : Lexicon) (c : Corpus α) (s : ToleranceSpace α) :
    (k.clusterCorpus lex c s).topics.length =
      (merge s c k.settings.mergeRule (candidates k.settings s c)).1.length := by
  rw [(k.perm_topicFrom lex c s).length_eq, List.length_map]

end Clusterer

namespace Candidate.Sound

variable {a : Candidate α}

/-- The terms of a sound candidate are those of the classes of its seeds. -/
theorem terms_eq (ha : a.Sound settings s c) : a.approximation.terms = Ascending.ofList (s.classUnion a.seeds) := by
  rw [ha.approximation]
  rfl

theorem mem_terms {τ : α} {f : Measure α} (ha : a.Sound settings s c) (h : ToleranceSpace.build c τ f = .ok s)
    (u : TermId) :
    u ∈ a.approximation.terms ↔ ∃ x ∈ a.seeds, ∃ cls, s.class? x = some cls ∧ u ∈ cls.members := by
  rw [ha.terms_eq, Ascending.mem_ofList, ToleranceSpace.classUnion, List.mem_flatMap]
  refine exists_congr fun x => and_congr_right ?_
  intro hx
  obtain ⟨cls, hcls, hmem⟩ := ToleranceSpace.class?_of_mem h (ha.known x hx)
  rw [hmem, hcls]
  simp

theorem positions_membersOf (ha : a.Sound settings s c) :
    (Clusterer.membersOf c a).map Member.position = c.covered (s.classUnion a.seeds) settings.minMembership := by
  rw [Clusterer.membersOf, ha.approximation, c.members_approximate, List.map_map, List.map_map]
  exact List.map_id' _

/-- The members of the topic are the documents that its terms cover. -/
theorem mem_membersOf (ha : a.Sound settings s c) (m : Member α) :
    m ∈ Clusterer.membersOf c a ↔ m.position < c.size ∧ 0 < m.membership ∧ settings.minMembership ≤ m.membership ∧
      m.membership = membership (c.vector m.position) a.approximation.terms ∧ m.document = c.id m.position := by
  have hset : ∀ v : TermVector α, membership v a.approximation.terms = membership v (s.classUnion a.seeds) := by
    intro v
    rw [ha.terms_eq]
    exact membership_congr v fun _ => Ascending.mem_ofList
  have hlist : Clusterer.membersOf c a = (c.covered (s.classUnion a.seeds) settings.minMembership).map fun pos =>
      ⟨c.id pos, pos, membership (c.vector pos) (s.classUnion a.seeds)⟩ := by
    rw [Clusterer.membersOf, ha.approximation, c.members_approximate, List.map_map]
    rfl
  rw [hlist, hset, List.mem_map]
  constructor
  · rintro ⟨pos, hpos, rfl⟩
    obtain ⟨hlt, h0, hμ⟩ := c.mem_covered.1 hpos
    exact ⟨hlt, h0, hμ, rfl, rfl⟩
  · rintro ⟨hlt, h0, hμ, hm, hid⟩
    refine ⟨m.position, c.mem_covered.2 ⟨hlt, ?_, ?_⟩, ?_⟩
    · rw [← hm]
      exact h0
    · rw [← hm]
      exact hμ
    · rw [← hm, ← hid]

end Candidate.Sound

/-- The topic that a sound candidate becomes is exact. -/
theorem exact_of_sound {τ : α} {f : Measure α} (h : ToleranceSpace.build c τ f = .ok s) {a : Candidate α}
    (ha : a.Sound settings s c) {t : Topic α} (hseeds : t.seeds = a.seeds) (hterms : t.terms = a.approximation.terms)
    (hmembers : t.members = Clusterer.membersOf c a) : t.Exact c s settings where
  seeds_ne := by
    rw [hseeds]
    exact ha.seeds_ne
  seeds_ascending := by
    rw [hseeds]
    exact ha.ascending
  seeds_known := by
    intro x hx
    rw [hseeds] at hx
    obtain ⟨cls, hcls, -⟩ := ToleranceSpace.class?_of_mem h (ha.known x hx)
    exact ⟨cls, hcls⟩
  terms_ascending := by
    rw [hterms, ha.terms_eq]
    exact Ascending.ascending_ofList _
  mem_terms := by
    intro u
    rw [hterms, hseeds]
    exact ha.mem_terms h u
  positions_ascending := by
    rw [Topic.positions, hmembers, ha.positions_membersOf]
    exact c.ascending_covered _ _
  mem_members := by
    intro m
    rw [hmembers, hterms]
    exact ha.mem_membersOf m
  large := by
    have hsize : t.size = a.approximation.size := by
      rw [Topic.size, hmembers, Clusterer.membersOf, List.length_map]
      rfl
    rw [hsize]
    exact ha.large

/-- Every topic of a run is exact. -/
theorem exact_of_mem_topics [Scalar.Rounded α] (k : Clusterer α) (lex : Lexicon) {τ : α} {f : Measure α}
    (h : ToleranceSpace.build c τ f = .ok s) : ∀ t ∈ (k.clusterCorpus lex c s).topics, t.Exact c s k.settings := by
  intro t ht
  obtain ⟨last, hr, hlast, -⟩ := reaches_merge s c k.settings.mergeRule (Clusterer.candidates k.settings s c)
  have hmem := (k.perm_topics lex c s).mem_iff.1
    (List.mem_map_of_mem (f := fun t : Topic α => (t.seeds, t.terms, t.members)) ht)
  obtain ⟨a, ha, he⟩ := List.mem_map.1 hmem
  obtain ⟨hseeds, he⟩ := Prod.mk.inj he
  obtain ⟨hterms, hmembers⟩ := Prod.mk.inj he
  rw [← hlast] at ha
  exact exact_of_sound h (sound_of_reaches h hr a ha) hseeds.symm hterms.symm hmembers.symm

/-- The seeds of the topics are the selected seeds with large classes, each in one topic. -/
theorem seeds_topics (k : Clusterer α) (lex : Lexicon) (c : Corpus α) (s : ToleranceSpace α) :
    (k.clusterCorpus lex c s).topics.Pairwise (fun t u => ∀ x ∈ t.seeds, x ∉ u.seeds) ∧
      ∀ x, (∃ t ∈ (k.clusterCorpus lex c s).topics, x ∈ t.seeds) ↔ x ∈ Clusterer.largeSeeds k.settings s c := by
  obtain ⟨last, hr, hlast, -⟩ := reaches_merge s c k.settings.mergeRule (Clusterer.candidates k.settings s c)
  have hdisjoint := disjoint_seeds_of_reaches hr
  have hmem := mem_seeds_of_reaches hr
  have hperm : ((k.clusterCorpus lex c s).topics.map Topic.seeds).Perm (last.candidates.map Candidate.seeds) := by
    have hp := (k.perm_topics lex c s).map Prod.fst
    rw [List.map_map, List.map_map] at hp
    rw [hlast]
    exact hp
  constructor
  · have hsymm {xs ys : List TermId} (h : ∀ x ∈ xs, x ∉ ys) : ∀ x ∈ ys, x ∉ xs := fun x hy hx => h x hx hy
    have hseeds : (last.candidates.map Candidate.seeds).Pairwise fun xs ys => ∀ x ∈ xs, x ∉ ys :=
      List.pairwise_map.2 hdisjoint
    exact List.pairwise_map.1 (hseeds.perm hperm.symm hsymm)
  · intro x
    rw [← hmem x]
    have hiff : ∀ xs, xs ∈ (k.clusterCorpus lex c s).topics.map Topic.seeds ↔ xs ∈ last.candidates.map Candidate.seeds :=
      fun xs => hperm.mem_iff
    constructor
    · rintro ⟨t, ht, hx⟩
      obtain ⟨a, ha, he⟩ := List.mem_map.1 ((hiff t.seeds).1 (List.mem_map_of_mem ht))
      exact ⟨a, ha, by rw [he]; exact hx⟩
    · rintro ⟨a, ha, hx⟩
      obtain ⟨t, ht, he⟩ := List.mem_map.1 ((hiff a.seeds).2 (List.mem_map_of_mem ha))
      exact ⟨t, ht, by rw [he]; exact hx⟩

/-- A run of the clusterer over binary64 returns topics that are exactly the upper approximations of their seeds. No seed
is in two topics, and the seeds of all topics are the selected ones whose own class covers enough documents. -/
theorem topics_are_approximations (k : Clusterer Float) (lex : Lexicon) (docs : List Document) :
    ∃ s r, k.IsSpaceOf lex docs s ∧ (k.cluster lex docs false).1 = .ok r ∧
      (∀ t ∈ r.topics, t.Exact (k.corpusOf lex docs) s k.settings) ∧
      r.topics.Pairwise (fun t u => ∀ x ∈ t.seeds, x ∉ u.seeds) ∧
      ∀ x, (∃ t ∈ r.topics, x ∈ t.seeds) ↔ x ∈ s.selectSeeds (k.corpusOf lex docs) k.settings.seeds ∧
        k.settings.minClusterSize ≤
          (s.approximate (k.corpusOf lex docs) (s.classTerms x) k.settings.minMembership).size := by
  obtain ⟨s, hs⟩ := k.exists_space lex docs
  obtain ⟨hdisjoint, hmem⟩ := seeds_topics k (Extraction.extract k.extraction lex docs).2 (k.corpusOf lex docs) s
  refine ⟨s, _, hs, k.cluster_eq lex docs hs, exact_of_mem_topics k _ hs, hdisjoint, ?_⟩
  intro x
  rw [hmem x, Clusterer.mem_largeSeeds]

end ToleranceClustering
