import ToleranceClustering.Proofs.Coverage

/-!
# A lower membership threshold

With a lower threshold every term set covers more documents. Which candidates merge is decided by how much their documents
overlap, though, and that may fall when both grow. So a document can drop out of all topics when the threshold is lowered
(`lower_membership_enlarges_rest`): it was covered by the joined terms of two seeds that no longer merge. That is the only
way (`rest_of_lower_membership`).
-/

namespace ToleranceClustering

open Agglomeration MergeState

/-- Two terms are seeds of topics, but never of the same one. -/
def Clustering.Separates {α : Type} (r : Clustering α) (x y : TermId) : Prop :=
  (∃ t ∈ r.topics, x ∈ t.seeds) ∧ (∃ t ∈ r.topics, y ∈ t.seeds) ∧ ∀ t ∈ r.topics, x ∈ t.seeds → y ∉ t.seeds

variable {α : Type} [Scalar α]

/-! ## Without merges -/

theorem MergeState.Reaches.eq_start_of_nil {s : ToleranceSpace α} {c : Corpus α} {rule : MergeRule α}
    {cs : List (Candidate α)} {history : List (MergeStep α)} {st : MergeState α} (hr : Reaches s c rule cs history st)
    (hnil : history = []) : st = MergeState.start cs := by
  cases hr with
  | start => rfl
  | turn => exact absurd hnil (List.append_ne_nil_of_right_ne_nil _ (List.cons_ne_nil _ _))

/-- Where nothing was merged, every topic has a single seed. -/
theorem Clusterer.single_seed_of_no_merges (k : Clusterer α) (lex : Lexicon) {c : Corpus α} {s : ToleranceSpace α}
    (hnone : (k.clusterCorpus lex c s).merges = []) : ∀ t ∈ (k.clusterCorpus lex c s).topics, ∃ x, t.seeds = [x] := by
  intro t ht
  obtain ⟨last, hr, hlast, -⟩ := reaches_merge s c k.settings.mergeRule (candidates k.settings s c)
  have hstart := hr.eq_start_of_nil hnone
  have hmem := (k.perm_topics lex c s).mem_iff.1
    (List.mem_map_of_mem (f := fun t : Topic α => (t.seeds, t.terms, t.members)) ht)
  rw [← hlast, hstart] at hmem
  obtain ⟨a, ha, he⟩ := List.mem_map.1 hmem
  obtain ⟨x, -, hseeds, -⟩ := exists_of_mem_candidates ha
  exact ⟨x, by rw [← (Prod.mk.inj he).1, hseeds]⟩

section Rounded

variable [Scalar.Rounded α] {c : Corpus α} {s : ToleranceSpace α} {τ : α} {f : Measure α} {settings settings' : Settings α}

open Scalar.Ordered

/-! ## Coverage -/

/-- Under a lower threshold no fewer documents are covered. -/
theorem Corpus.size_le_of_lower (c : Corpus α) (terms : List TermId) {low high : α} (hle : low ≤ high) :
    (c.approximate terms high).size ≤ (c.approximate terms low).size := by
  rw [size_approximate, size_approximate]
  refine (List.monotone_filter_right _ ?_).length_le
  intro pos hpos
  rw [decide_eq_true_iff] at hpos ⊢
  exact ⟨hpos.1, le_trans hle hpos.2⟩

/-- A seed whose class covers enough documents does so under a lower threshold. -/
theorem Clusterer.mem_largeSeeds_of_lower (h : ToleranceSpace.build c τ f = .ok s)
    (hseeds : settings.seeds = settings'.seeds) (hsize : settings.minClusterSize = settings'.minClusterSize)
    (hle : settings.minMembership ≤ settings'.minMembership) {x : TermId} (hx : x ∈ largeSeeds settings' s c) :
    x ∈ largeSeeds settings s c := by
  rw [mem_largeSeeds, ToleranceSpace.approximate_eq_approximate h] at hx ⊢
  rw [hseeds, hsize]
  exact ⟨hx.1, Nat.le_trans hx.2 (c.size_le_of_lower _ hle)⟩

/-- A topic with more seeds and a lower threshold holds the documents that one with fewer seeds holds. -/
theorem Topic.Exact.mem_positions_of_subset {t u : Topic α} (ht : t.Exact c s settings') (hu : u.Exact c s settings)
    (hle : settings.minMembership ≤ settings'.minMembership) (hsub : ∀ x ∈ t.seeds, x ∈ u.seeds) {pos : Position}
    (hpos : pos ∈ t.positions) : pos ∈ u.positions := by
  obtain ⟨m, hm, rfl⟩ := List.mem_map.1 hpos
  obtain ⟨hlt, hm0, hμ, hmem, -⟩ := (ht.mem_members m).1 hm
  have hterms : ∀ w ∈ t.terms, w ∈ u.terms := by
    intro w hw
    obtain ⟨x, hx, hcls⟩ := (ht.mem_terms w).1 hw
    exact (hu.mem_terms w).2 ⟨x, hsub x hx, hcls⟩
  rw [hmem] at hm0 hμ
  have hgrows := membership_le_membership hterms hm0
  have hmember : (⟨c.id m.position, m.position, membership (c.vector m.position) u.terms⟩ : Member α) ∈ u.members :=
    (hu.mem_members _).2 ⟨hlt, lt_of_lt_of_le hm0 hgrows, le_trans hle (le_trans hμ hgrows), rfl, rfl⟩
  exact List.mem_map.2 ⟨_, hmember, rfl⟩

/-! ## Two runs -/

namespace Clusterer

variable {k k' : Clusterer α}

/-- A topic of the run under the higher threshold that holds a document which the other run leaves over has two seeds that
the other run separates. -/
theorem exists_separated (h : ToleranceSpace.build c τ f = .ok s) (lex lex' : Lexicon)
    (hseeds : k.settings.seeds = k'.settings.seeds) (hsize : k.settings.minClusterSize = k'.settings.minClusterSize)
    (hle : k.settings.minMembership ≤ k'.settings.minMembership) {pos : Position}
    (hpos : ∀ u ∈ (k.clusterCorpus lex c s).topics, pos ∉ u.positions) :
    ∀ t ∈ (k'.clusterCorpus lex' c s).topics, pos ∈ t.positions →
      ∃ x ∈ t.seeds, ∃ y ∈ t.seeds, (k.clusterCorpus lex c s).Separates x y := by
  intro t ht hmem
  obtain ⟨hdisjoint, hlarge⟩ := seeds_topics k lex c s
  have hexact := exact_of_mem_topics k lex h
  have htexact := exact_of_mem_topics k' lex' h t ht
  have hhome : ∀ x ∈ t.seeds, ∃ u ∈ (k.clusterCorpus lex c s).topics, x ∈ u.seeds := by
    intro x hx
    have hx' := ((seeds_topics k' lex' c s).2 x).1 ⟨t, ht, hx⟩
    exact (hlarge x).2 (mem_largeSeeds_of_lower h hseeds hsize hle hx')
  obtain ⟨x, hx⟩ := List.exists_mem_of_ne_nil _ htexact.seeds_ne
  obtain ⟨u, hu, hxu⟩ := hhome x hx
  -- the topic around `x` does not hold the document, so some seed of `t` is not in it
  obtain ⟨y, hy, hyu⟩ : ∃ y ∈ t.seeds, y ∉ u.seeds := by
    by_contra hall
    simp only [not_exists, not_and, not_not] at hall
    exact hpos u hu (htexact.mem_positions_of_subset (hexact u hu) hle hall hmem)
  refine ⟨x, hx, y, hy, ⟨u, hu, hxu⟩, hhome y hy, ?_⟩
  intro v hv hxv hyv
  by_cases hvu : v = u
  · exact hyu (hvu ▸ hyv)
  · have : Std.Symm fun t u : Topic α => ∀ x ∈ t.seeds, x ∉ u.seeds := ⟨fun _ _ hr x hx hy => hr x hy hx⟩
    exact hdisjoint.forall hv hu hvu x hxv hxu

end Clusterer

end Rounded

/-- Of two runs over binary64 that differ in the membership threshold alone, the one with the lower threshold leaves over
only what the other one leaves over, and documents that the other one holds in topics which join seeds that the first keeps
in different topics. Where the run with the higher threshold merges nothing, it leaves over all that the other does. -/
theorem rest_of_lower_membership (k k' : Clusterer Float) (lex : Lexicon) (docs : List Document)
    (hk : k.settings = { k'.settings with minMembership := k.settings.minMembership })
    (hle : k.settings.minMembership ≤ k'.settings.minMembership) :
    ∃ r r', (k.cluster lex docs false).1 = .ok r ∧ (k'.cluster lex docs false).1 = .ok r' ∧
      (∀ pos ∈ r.rest.positions, pos ∈ r'.rest.positions ∨ (∃ t ∈ r'.topics, pos ∈ t.positions) ∧
        ∀ t ∈ r'.topics, pos ∈ t.positions → ∃ x ∈ t.seeds, ∃ y ∈ t.seeds, r.Separates x y) ∧
      (r'.merges = [] → ∀ pos ∈ r.rest.positions, pos ∈ r'.rest.positions) := by
  have hextraction : k.extraction = k'.extraction := by
    unfold Clusterer.extraction
    rw [hk]
  obtain ⟨hcorpus, s, hspace, hs⟩ :=
    Clusterer.exists_common_space lex docs hextraction (by rw [hk]) (by rw [hk])
  have hr := k.cluster_eq lex docs hspace
  have hr' := k'.cluster_eq lex docs hs
  rw [hextraction, hcorpus] at hr
  generalize (Extraction.extract k'.extraction lex docs).2 = later at hr hr'
  have hplaced := (Clusterer.complete_of_exact k.inRange (exact_of_mem_topics k later hs)
    (k.clusterCorpus later (k'.corpusOf lex docs) s).merges).placed
  have hplaced' := (Clusterer.complete_of_exact k'.inRange (exact_of_mem_topics k' later hs)
    (k'.clusterCorpus later (k'.corpusOf lex docs) s).merges).placed
  have hleft : ∀ pos ∈ (k.clusterCorpus later (k'.corpusOf lex docs) s).rest.positions,
      pos ∈ (k'.clusterCorpus later (k'.corpusOf lex docs) s).rest.positions ∨
        (∃ t ∈ (k'.clusterCorpus later (k'.corpusOf lex docs) s).topics, pos ∈ t.positions) ∧
        ∀ t ∈ (k'.clusterCorpus later (k'.corpusOf lex docs) s).topics, pos ∈ t.positions →
          ∃ x ∈ t.seeds, ∃ y ∈ t.seeds, (k.clusterCorpus later (k'.corpusOf lex docs) s).Separates x y := by
    intro pos hpos
    obtain ⟨hlt, hout⟩ := Clusterer.mem_positions_uncovered.1 hpos
    by_cases hmem : pos ∈ (k'.clusterCorpus later (k'.corpusOf lex docs) s).rest.positions
    · exact Or.inl hmem
    · exact Or.inr ⟨(hplaced' pos hlt).2 hmem,
        Clusterer.exists_separated hs later later (by rw [hk]) (by rw [hk]) hle hout⟩
  refine ⟨_, _, hr, hr', hleft, ?_⟩
  intro hnone pos hpos
  obtain hmem | ⟨⟨t, ht, hin⟩, hsep⟩ := hleft pos hpos
  · exact hmem
  · obtain ⟨x, hx, y, hy, ⟨u, hu, hxu⟩, -, hapart⟩ := hsep t ht hin
    obtain ⟨z, hz⟩ := k'.single_seed_of_no_merges later hnone t ht
    rw [hz, List.mem_singleton] at hx hy
    rw [hx] at hxu hapart
    rw [hy] at hapart
    exact absurd hxu (hapart u hu hxu)

/-- Four documents: the first two have rain and wind in common, the others have snow and one of the two. -/
def weather : List Document :=
  [⟨0, ["rain", "wind"], none⟩, ⟨1, ["rain", "wind", "hail", "hail"], none⟩, ⟨2, ["rain", "snow", "snow"], none⟩,
    ⟨3, ["wind", "snow", "snow"], none⟩]

/-- Settings under which terms stand for themselves, with a membership threshold. -/
def weatherSettings (μ : Float) : Settings Float :=
  { Settings.standard with tolerance := 0.9, minMembership := μ, minClusterSize := 1 }

/-- The lower membership threshold. -/
def lenient : Clusterer Float := ⟨weatherSettings 0.3, by decide +kernel, Labeler.byCohesion⟩

/-- The higher membership threshold. -/
def strict : Clusterer Float := ⟨weatherSettings 0.4, by decide +kernel, Labeler.byCohesion⟩

theorem rest_of_lower_membership_weather :
    lenient.settings = { strict.settings with minMembership := lenient.settings.minMembership } ∧
      lenient.settings.minMembership ≤ strict.settings.minMembership ∧
      ∃ r r', (lenient.cluster Lexicon.empty weather false).1 = .ok r ∧
        (strict.cluster Lexicon.empty weather false).1 = .ok r' ∧
        ∀ pos ∈ r.rest.positions, pos ∈ r'.rest.positions ∨ (∃ t ∈ r'.topics, pos ∈ t.positions) ∧
          ∀ t ∈ r'.topics, pos ∈ t.positions → ∃ x ∈ t.seeds, ∃ y ∈ t.seeds, r.Separates x y := by
  have hk : lenient.settings = { strict.settings with minMembership := lenient.settings.minMembership } := rfl
  have hle : lenient.settings.minMembership ≤ strict.settings.minMembership := by decide +kernel
  obtain ⟨r, r', hr, hr', hleft, -⟩ := rest_of_lower_membership lenient strict Lexicon.empty weather hk hle
  exact ⟨hk, hle, r, r', hr, hr', hleft⟩

/-- With a membership threshold of 0.4, rain and wind merge and cover all but snow, and snow covers the rest; with 0.3 they
do not merge, and the second document is left over. -/
theorem lower_membership_enlarges_rest :
    lenient.settings = { strict.settings with minMembership := lenient.settings.minMembership } ∧
      lenient.settings.minMembership ≤ strict.settings.minMembership ∧
      (lenient.cluster Lexicon.empty weather false).1.map (fun r => r.rest.positions) = .ok [1] ∧
      (strict.cluster Lexicon.empty weather false).1.map (fun r => r.rest.positions) = .ok [] := by
  refine ⟨rfl, ?_, ?_⟩
  · decide +kernel
  · decide +kernel

end ToleranceClustering
