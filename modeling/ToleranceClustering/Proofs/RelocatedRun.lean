import Mathlib.Data.List.Forall2
import ToleranceClustering.Proofs.Coverage
import ToleranceClustering.Proofs.MergeGrowth
import ToleranceClustering.Proofs.Relocation
import ToleranceClustering.Proofs.Renumbering

/-!
# A run on relocated documents

Where two corpora hold the same documents at different places and have the same seeds, a run on the one does step by step
what a run on the other does: the first candidates are the same but for the documents they cover (`candidates_coveredIn`),
and merging compares the same overlaps and makes the same steps (`merge_coveredIn`). The topics correspond up to their order
(`topics_relocated`), and so do the documents that are left over, besides those without terms (`mem_rest_relocated`).
-/

namespace ToleranceClustering

open Agglomeration

variable {α : Type}

/-- The document at the place that `σ` gives. -/
def Member.move (σ : ℕ ↪ ℕ) (m : Member α) : Member α := { m with position := σ m.position }

/-- The topic `t'` has the seeds and terms of `t`, and its documents at the places that `σ` gives, with the same ids and
memberships. -/
structure Topic.Relocated (σ : ℕ ↪ ℕ) (t t' : Topic α) : Prop where
  seeds : t'.seeds = t.seeds
  terms : t'.terms = t.terms
  members : t'.members.Perm (t.members.map (Member.move σ))

/-- Two lists of topics that correspond one to one, whatever their order is. -/
def Topic.AllRelocated (σ : ℕ ↪ ℕ) (ts ts' : List (Topic α)) : Prop :=
  ∃ us, List.Forall₂ (Topic.Relocated σ) ts us ∧ us.Perm ts'

variable [Scalar α]

/-- The candidate with what its terms cover in a corpus. -/
def Candidate.coveredIn (c : Corpus α) (μ : α) (a : Candidate α) : Candidate α :=
  { a with approximation := c.approximate a.approximation.terms μ }

variable {σ : ℕ ↪ ℕ} {c c' : Corpus α} {τ : α} {f : Measure α} {s s' : ToleranceSpace α}

section Rounded

variable [Scalar.Rounded α]

/-! ## Candidates -/

namespace Candidate

variable {μ : α} {a b : Candidate α}

theorem relocated_coveredIn (hr : c.Relocated σ c') (ha : a.approximation.Faithful c μ) :
    a.approximation.Relocated σ c.size (a.coveredIn c' μ).approximation := by
  have hmoved := Corpus.approximate_relocated hr a.approximation.terms μ
  rwa [← ha] at hmoved

theorem overlap_coveredIn (hr : c.Relocated σ c') (ha : a.approximation.Faithful c μ) (hb : b.approximation.Faithful c μ) :
    (a.coveredIn c' μ).approximation.overlap (b.coveredIn c' μ).approximation = a.approximation.overlap b.approximation :=
  (relocated_coveredIn hr ha).overlap_eq (relocated_coveredIn hr hb)

omit [Scalar α] [Scalar.Rounded α] in
/-- First candidates are ordered by their seeds and sizes, so approximations of the same sizes give the same order. -/
theorem ofSeeds_map {g : Approximation α → Approximation α} {approximations : List (Approximation α)}
    (hsize : ∀ a ∈ approximations, (g a).size = a.size) (seeds : List TermId) (minSize : ℕ) :
    ofSeeds seeds (approximations.map g) minSize =
      (ofSeeds seeds approximations minSize).map fun a => { a with approximation := g a.approximation } := by
  have hlarge : (seeds.zip (approximations.map g)).filter (fun p => decide (minSize ≤ p.2.size)) =
      ((seeds.zip approximations).filter fun p => decide (minSize ≤ p.2.size)).map fun p => (p.1, g p.2) := by
    have hzip : seeds.zip (approximations.map g) = (seeds.zip approximations).map fun p => (p.1, g p.2) :=
      List.zip_map_right
    rw [hzip, List.filter_map]
    refine congrArg (List.map _) (List.filter_congr ?_)
    rintro ⟨t, a⟩ hmem
    simp only [Function.comp_apply, hsize a (List.of_mem_zip hmem).2]
  have hsizes : ∀ p ∈ (seeds.zip approximations).filter fun p => decide (minSize ≤ p.2.size), (g p.2).size = p.2.size :=
    fun p hp => hsize p.2 (List.of_mem_zip (List.mem_filter.1 hp).1).2
  unfold ofSeeds
  simp only [hlarge, List.map_map]
  generalize (seeds.zip approximations).filter (fun p => decide (minSize ≤ p.2.size)) = large at hsizes
  have hsort : (Sorting.sort bySeed (large.map fun p => (⟨0, [p.1], p.2⟩ : Candidate α))).map
        (fun a => { a with approximation := g a.approximation }) =
      Sorting.sort bySeed ((large.map fun p => (⟨0, [p.1], p.2⟩ : Candidate α)).map
        fun a => { a with approximation := g a.approximation }) := by
    refine Sorting.map_sort _ _ ?_
    intro a ha b hb
    obtain ⟨p, hp, rfl⟩ := List.mem_map.1 ha
    obtain ⟨q, hq, rfl⟩ := List.mem_map.1 hb
    simp only [bySeed, firstSeed?, size, hsizes p hp, hsizes q hq]
  rw [List.map_map] at hsort
  have hstart : large.map ((fun p => (⟨0, [p.1], p.2⟩ : Candidate α)) ∘ fun p => (p.1, g p.2)) =
      large.map ((fun a : Candidate α => { a with approximation := g a.approximation }) ∘ fun p => ⟨0, [p.1], p.2⟩) := rfl
  rw [hstart, ← hsort, List.zipIdx_map, List.map_map]
  rfl

end Candidate

/-! ## Merging -/

theorem OverlapTable.ofCandidates_coveredIn (hr : c.Relocated σ c') {μ : α} {cs : List (Candidate α)}
    (hcs : ∀ a ∈ cs, a.approximation.Faithful c μ) : ofCandidates (cs.map (Candidate.coveredIn c' μ)) = ofCandidates cs := by
  unfold ofCandidates
  rw [List.zipIdx_map, List.map_map]
  refine List.map_congr_left ?_
  rintro ⟨a, i⟩ ha
  simp only [Function.comp_apply, Prod.map_apply, List.map_map, id]
  refine List.map_congr_left ?_
  rintro ⟨b, j⟩ hb
  have ha' := hcs a (List.fst_mem_of_mem_zipIdx ha)
  have hb' := hcs b (List.fst_mem_of_mem_zipIdx hb)
  simp only [Function.comp_apply, Prod.map_apply, id, Candidate.overlap_coveredIn hr ha' hb',
    Candidate.overlap_coveredIn hr hb' ha']

namespace Agglomeration

theorem absorb_coveredIn (h : ToleranceSpace.build c τ f = .ok s) (h' : ToleranceSpace.build c' τ f = .ok s') (μ : α)
    (a b : Candidate α) :
    absorb s' c' μ (a.coveredIn c' μ) (b.coveredIn c' μ) = (absorb s c μ a b).coveredIn c' μ := by
  have happ : s'.approximate c' ((a.coveredIn c' μ).approximation.terms ++ (b.coveredIn c' μ).approximation.terms) μ =
      c'.approximate (absorb s c μ a b).approximation.terms μ := by
    rw [ToleranceSpace.approximate_eq_approximate h', absorb, ToleranceSpace.approximate_eq_approximate h]
    refine c'.approximate_congr ?_ μ
    intro t
    simp only [Candidate.coveredIn, Corpus.approximate, List.mem_append, Ascending.mem_ofList]
  unfold absorb at happ ⊢
  rw [happ]
  rfl

theorem mergePair_coveredIn (hr : c.Relocated σ c') (h : ToleranceSpace.build c τ f = .ok s)
    (h' : ToleranceSpace.build c' τ f = .ok s') (μ : α) (cs : List (Candidate α)) (p : OverlapPair α) :
    mergePair s' c' μ (cs.map (Candidate.coveredIn c' μ)) p =
      (mergePair s c μ cs p).map fun r => (r.1.map (Candidate.coveredIn c' μ), r.2) := by
  unfold mergePair
  rw [List.getElem?_map, List.getElem?_map]
  cases cs[p.first]? with
  | none => rfl
  | some kept =>
    cases cs[p.second]? with
    | none => rfl
    | some absorbed =>
      have hsize := (Candidate.relocated_coveredIn hr (faithful_absorb h μ kept absorbed)).size_eq
      simp only [Option.map_some]
      rw [absorb_coveredIn h h', List.eraseIdx_map, ← List.map_set, Candidate.size, hsize]
      rfl

theorem faithful_mergePair (h : ToleranceSpace.build c τ f = .ok s) {μ : α} {cs merged : List (Candidate α)}
    {p : OverlapPair α} {step : MergeStep α} (hcs : ∀ a ∈ cs, a.approximation.Faithful c μ)
    (hm : mergePair s c μ cs p = some (merged, step)) : ∀ a ∈ merged, a.approximation.Faithful c μ := by
  unfold mergePair at hm
  split at hm
  · obtain ⟨rfl, -⟩ := Prod.mk.inj (Option.some.inj hm)
    intro a ha
    obtain ha | rfl := List.mem_or_eq_of_mem_set ha
    · exact hcs a (List.mem_of_mem_eraseIdx ha)
    · exact faithful_absorb h μ _ _
  · cases hm

theorem rescanFrom_coveredIn (hr : c.Relocated σ c') (h : ToleranceSpace.build c τ f = .ok s)
    (h' : ToleranceSpace.build c' τ f = .ok s') (rule : MergeRule α) (fuel : ℕ) {cs : List (Candidate α)}
    (hcs : ∀ a ∈ cs, a.approximation.Faithful c rule.minMembership) :
    rescanFrom s' c' rule fuel (cs.map (Candidate.coveredIn c' rule.minMembership)) =
      ((rescanFrom s c rule fuel cs).1.map (Candidate.coveredIn c' rule.minMembership),
        (rescanFrom s c rule fuel cs).2) := by
  induction fuel generalizing cs with
  | zero => rfl
  | succ fuel ih =>
    unfold rescanFrom
    rw [OverlapTable.ofCandidates_coveredIn hr hcs]
    cases (OverlapTable.ofCandidates cs).bestPair? rule.threshold with
    | none => rfl
    | some p =>
      simp only
      rw [mergePair_coveredIn hr h h']
      cases hm : mergePair s c rule.minMembership cs p with
      | none => rfl
      | some r =>
        obtain ⟨merged, step⟩ := r
        simp only [Option.map_some]
        rw [ih (faithful_mergePair h hcs hm)]

/-- In the other corpus the same candidates are merged in the same steps. -/
theorem merge_coveredIn (hr : c.Relocated σ c') (h : ToleranceSpace.build c τ f = .ok s)
    (h' : ToleranceSpace.build c' τ f = .ok s') (rule : MergeRule α) {cs : List (Candidate α)}
    (hcs : ∀ a ∈ cs, a.approximation.Faithful c rule.minMembership) :
    merge s' c' rule (cs.map (Candidate.coveredIn c' rule.minMembership)) =
      ((merge s c rule cs).1.map (Candidate.coveredIn c' rule.minMembership), (merge s c rule cs).2) := by
  unfold merge
  rw [mergeFrom_eq_rescanFrom, mergeFrom_eq_rescanFrom, List.length_map]
  exact rescanFrom_coveredIn hr h h' rule _ hcs

end Agglomeration

namespace Clusterer

variable {settings : Settings α}

/-- With the same seeds, the first candidates are the same, each with what it covers in its corpus. -/
theorem candidates_coveredIn (hr : c.Relocated σ c') (h : ToleranceSpace.build c τ f = .ok s)
    (h' : ToleranceSpace.build c' τ f = .ok s')
    (hseeds : s'.selectSeeds c' settings.seeds = s.selectSeeds c settings.seeds) :
    candidates settings s' c' = (candidates settings s c).map (Candidate.coveredIn c' settings.minMembership) := by
  have hterms : ∀ ts μ, c'.approximate (s.approximate c ts μ).terms μ = c'.approximate ts μ :=
    fun ts μ => c'.approximate_congr (fun _ => Ascending.mem_ofList) μ
  have happroximations : s'.approximateSeeds c' (s.selectSeeds c settings.seeds) settings.minMembership =
      (s.approximateSeeds c (s.selectSeeds c settings.seeds) settings.minMembership).map
        fun a => c'.approximate a.terms settings.minMembership := by
    unfold ToleranceSpace.approximateSeeds
    rw [List.map_map]
    refine List.map_congr_left ?_
    intro t _
    rw [Function.comp_apply, hterms, ToleranceSpace.approximate_eq_approximate h',
      ToleranceSpace.classTerms_relocated hr h h']
  unfold candidates
  simp only [hseeds, happroximations]
  refine Candidate.ofSeeds_map ?_ _ _
  intro a ha
  obtain ⟨t, -, rfl⟩ := List.mem_map.1 ha
  rw [hterms, ToleranceSpace.approximate_eq_approximate h]
  exact (Corpus.approximate_relocated hr _ _).size_eq

/-- The candidates that a run leaves are what their terms cover. -/
theorem faithful_left (settings : Settings α) (h : ToleranceSpace.build c τ f = .ok s) :
    ∀ a ∈ (merge s c settings.mergeRule (candidates settings s c)).1,
      a.approximation.Faithful c settings.minMembership := by
  obtain ⟨last, hreaches, hlast, -⟩ := reaches_merge s c settings.mergeRule (candidates settings s c)
  rw [← hlast]
  exact faithful_of_reaches h (faithful_ofSeeds h _ _ _) hreaches

/-- A run on the other corpus leaves the same candidates, after the same steps. -/
theorem merge_candidates_coveredIn (hr : c.Relocated σ c') (h : ToleranceSpace.build c τ f = .ok s)
    (h' : ToleranceSpace.build c' τ f = .ok s')
    (hseeds : s'.selectSeeds c' settings.seeds = s.selectSeeds c settings.seeds) :
    merge s' c' settings.mergeRule (candidates settings s' c') =
      ((merge s c settings.mergeRule (candidates settings s c)).1.map (Candidate.coveredIn c' settings.minMembership),
        (merge s c settings.mergeRule (candidates settings s c)).2) := by
  rw [candidates_coveredIn hr h h' hseeds]
  exact merge_coveredIn hr h h' settings.mergeRule (faithful_ofSeeds h _ _ _)

theorem merges_relocated (hr : c.Relocated σ c') {k : Clusterer α} (h : ToleranceSpace.build c τ f = .ok s)
    (h' : ToleranceSpace.build c' τ f = .ok s')
    (hseeds : s'.selectSeeds c' k.settings.seeds = s.selectSeeds c k.settings.seeds) (lex lex' : Lexicon) :
    (k.clusterCorpus lex' c' s').merges = (k.clusterCorpus lex c s).merges := by
  have hmerges : ∀ (lex : Lexicon) (c : Corpus α) (s : ToleranceSpace α),
      (k.clusterCorpus lex c s).merges = (merge s c k.settings.mergeRule (candidates k.settings s c)).2 :=
    fun _ _ _ => rfl
  rw [hmerges, hmerges, merge_candidates_coveredIn hr h h' hseeds]

/-! ## Topics -/

/-- A candidate becomes, in the other corpus, the same topic at the other places. -/
theorem topicFrom_relocated (hr : c.Relocated σ c') {μ : α} {a : Candidate α} (ha : a.approximation.Faithful c μ)
    (k : Clusterer α) (lex lex' : Lexicon) : (k.topicFrom lex c a).Relocated σ (k.topicFrom lex' c' (a.coveredIn c' μ)) := by
  have hmoved := Candidate.relocated_coveredIn hr ha
  refine ⟨rfl, hmoved.terms, ?_⟩
  have hmembers : ∀ (lex : Lexicon) (c : Corpus α) (a : Candidate α), (k.topicFrom lex c a).members = membersOf c a :=
    fun _ _ _ => rfl
  rw [hmembers, hmembers, membersOf, membersOf]
  refine (hmoved.members.map _).trans (List.Perm.of_eq ?_)
  rw [List.map_map, List.map_map]
  refine List.map_congr_left ?_
  intro p hp
  have hid := hr.id p.1 (hmoved.bounded p.1 (List.mem_map_of_mem hp))
  rw [Function.comp_apply, Function.comp_apply, Prod.map_fst, Prod.map_snd, hid]
  rfl

/-- The topics of a run on the other corpus are the same, at the other places. -/
theorem topics_relocated (hr : c.Relocated σ c') {k : Clusterer α} (h : ToleranceSpace.build c τ f = .ok s)
    (h' : ToleranceSpace.build c' τ f = .ok s')
    (hseeds : s'.selectSeeds c' k.settings.seeds = s.selectSeeds c k.settings.seeds) (lex lex' : Lexicon) :
    Topic.AllRelocated σ (k.clusterCorpus lex c s).topics (k.clusterCorpus lex' c' s').topics := by
  have hperm' := k.perm_topicFrom lex' c' s'
  rw [merge_candidates_coveredIn hr h h' hseeds, List.map_map] at hperm'
  have hall : List.Forall₂ (Topic.Relocated σ)
      ((merge s c k.settings.mergeRule (candidates k.settings s c)).1.map (k.topicFrom lex c))
      ((merge s c k.settings.mergeRule (candidates k.settings s c)).1.map
        (k.topicFrom lex' c' ∘ Candidate.coveredIn c' k.settings.minMembership)) := by
    rw [List.forall₂_map_left_iff, List.forall₂_map_right_iff, List.forall₂_same]
    exact fun a ha => topicFrom_relocated hr (faithful_left k.settings h a ha) k lex lex'
  obtain ⟨us, hus, hperm⟩ := List.perm_comp_forall₂ (k.perm_topicFrom lex c s) hall
  exact ⟨us, hus, hperm.trans hperm'.symm⟩

end Clusterer

end Rounded

/-! ## What is left over -/

namespace Topic.AllRelocated

variable {ts ts' : List (Topic α)}

omit [Scalar α] in
theorem perm_positions (h : AllRelocated σ ts ts') :
    (ts'.flatMap Topic.positions).Perm ((ts.flatMap Topic.positions).map σ) := by
  obtain ⟨us, hus, hperm⟩ := h
  refine (hperm.symm.flatMap_right _).trans ?_
  clear hperm
  induction hus with
  | nil => exact List.Perm.refl _
  | cons ht _ ih =>
    have hp := ht.members.map Member.position
    rw [List.map_map] at hp
    rw [List.flatMap_cons, List.flatMap_cons, List.map_append]
    refine List.Perm.append ?_ ih
    unfold positions
    rw [List.map_map]
    exact hp

omit [Scalar α] in
theorem perm_terms (h : AllRelocated σ ts ts') : (ts'.map Topic.terms).Perm (ts.map Topic.terms) := by
  obtain ⟨us, hus, hperm⟩ := h
  refine (hperm.symm.map _).trans (List.Perm.of_eq ?_)
  clear hperm
  induction hus with
  | nil => rfl
  | cons ht _ ih => rw [List.map_cons, List.map_cons, ht.terms, ih]

end Topic.AllRelocated

namespace Clusterer

variable [Scalar.Normal α] {ts ts' : List (Topic α)}

open Topic in
/-- A document reaches the same best membership at the other place. -/
theorem bestMembership_relocated (hr : c.Relocated σ c') (hts : AllRelocated σ ts ts') {pos : Position}
    (hpos : pos < c.size) : bestMembership c' ts' (σ pos) = bestMembership c ts pos := by
  have hperm := hts.perm_terms.map (membership (c.vector pos))
  rw [List.map_map, List.map_map] at hperm
  unfold bestMembership
  rw [hr.vector pos hpos]
  exact Scalar.foldl_max_perm hperm

open Topic in
/-- What a run on the other corpus leaves over: the documents that the run on the first one leaves over, at the other places
and with the same best memberships, and those without terms. -/
theorem mem_uncovered_relocated (hr : c.Relocated σ c') (hts : AllRelocated σ ts ts')
    (hbound : ∀ t ∈ ts, ∀ pos ∈ t.positions, pos < c.size) (m : Member α) :
    m ∈ uncovered c' ts' ↔ (∃ m₀ ∈ uncovered c ts, m₀.move σ = m) ∨
      (m.position < c'.size ∧ (∀ p < c.size, σ p ≠ m.position) ∧ m.document = c'.id m.position ∧ m.membership = 0) := by
  have hheld : ∀ q, (∀ t ∈ ts', q ∉ t.positions) ↔ ∀ p, (∃ t ∈ ts, p ∈ t.positions) → σ p ≠ q := by
    intro q
    have hmem := hts.perm_positions.mem_iff (a := q)
    rw [List.mem_map] at hmem
    simp only [List.mem_flatMap] at hmem
    rw [← not_exists.trans (forall_congr' fun t => not_and), hmem]
    simp only [not_exists, not_and]
  rw [mem_uncovered]
  constructor
  · rintro ⟨hlt, hout, hid, hbest⟩
    rw [hheld] at hout
    by_cases hplace : ∃ p < c.size, σ p = m.position
    · obtain ⟨p, hp, he⟩ := hplace
      rw [← he, hr.id p hp] at hid
      rw [← he, bestMembership_relocated hr hts hp] at hbest
      refine Or.inl ⟨⟨c.id p, p, bestMembership c ts p⟩, mem_uncovered.2 ⟨hp, ?_, rfl, rfl⟩, ?_⟩
      · exact fun t ht hin => hout p ⟨t, ht, hin⟩ he
      · rw [Member.move, he, ← hid, ← hbest]
    · have hmal := (hr.blank m.position hlt).resolve_left hplace
      refine Or.inr ⟨hlt, ?_, hid, hbest.trans (bestMembership_of_isMalformed hmal)⟩
      exact fun p hp he => hplace ⟨p, hp, he⟩
  · rintro (⟨m₀, hm₀, rfl⟩ | ⟨hlt, hplace, hid, hzero⟩)
    · obtain ⟨hlt, hout, hid, hbest⟩ := mem_uncovered.1 hm₀
      refine ⟨hr.bound _ hlt, (hheld _).2 ?_, ?_, ?_⟩
      · rintro p ⟨t, ht, hin⟩ he
        exact hout t ht (σ.injective he ▸ hin)
      · exact hid.trans (hr.id _ hlt).symm
      · exact hbest.trans (bestMembership_relocated hr hts hlt).symm
    · have hmal : c'.isMalformed m.position = true := by
        refine (hr.blank m.position hlt).resolve_left ?_
        rintro ⟨p, hp, he⟩
        exact hplace p hp he
      refine ⟨hlt, (hheld _).2 ?_, hid, hzero.trans (bestMembership_of_isMalformed hmal).symm⟩
      rintro p ⟨t, ht, hin⟩ he
      exact hplace p (hbound t ht p hin) he

/-- What a run on the other corpus leaves over. -/
theorem mem_rest_relocated (hr : c.Relocated σ c') {k : Clusterer α} (h : ToleranceSpace.build c τ f = .ok s)
    (h' : ToleranceSpace.build c' τ f = .ok s')
    (hseeds : s'.selectSeeds c' k.settings.seeds = s.selectSeeds c k.settings.seeds) (lex lex' : Lexicon) (m : Member α) :
    m ∈ (k.clusterCorpus lex' c' s').rest.members ↔
      (∃ m₀ ∈ (k.clusterCorpus lex c s).rest.members, m₀.move σ = m) ∨
        (m.position < c'.size ∧ (∀ p < c.size, σ p ≠ m.position) ∧ m.document = c'.id m.position ∧ m.membership = 0) := by
  refine mem_uncovered_relocated hr (topics_relocated hr h h' hseeds lex lex') ?_ m
  exact fun t ht pos hpos => (exact_of_mem_topics k lex h t ht).lt_size hpos

end Clusterer

end ToleranceClustering
