import Mathlib.Order.Hom.Basic
import ToleranceClustering.Proofs.RelocatedRun
import ToleranceClustering.Proofs.Rerun

/-!
# Documents without terms

Documents without terms only push the others to later places. If terms are weighted by their frequency and no share of
documents is too large for them, a run with such documents among the others is the run without them, at the new places: the
same topics in the same order with the same labels, the same merges, and in the rest the same documents besides the ones
without terms (`blank_documents_do_not_interfere`). Since the others keep their order, even what is added up over them is
added in the same order.
-/

namespace ToleranceClustering

open Agglomeration

variable {σ : ℕ ↪o ℕ}

/-! ## Batches -/

/-- A filter looks at one place after the other. -/
theorem filter_eq_filterMap_range {β : Type} (p : β → Bool) (xs : List β) :
    xs.filter p = (List.range xs.length).filterMap fun i => xs[i]?.filter p := by
  induction xs with
  | nil => rfl
  | cons x xs ih =>
    rw [List.length_cons, List.range_succ_eq_map, List.filterMap_cons, List.filterMap_map]
    simp only [Function.comp_def, List.getElem?_cons_zero, Nat.succ_eq_add_one, List.getElem?_cons_succ, ← ih,
      List.filter_cons, Option.filter_some]
    split <;> rfl

namespace Relocated

variable {docs docs' : List Document}

/-- The documents that have terms are the same, in the same order. -/
theorem filter_eq (hr : Relocated σ.toEmbedding docs docs') {p : Document → Bool}
    (hp : ∀ d, d.terms = [] → p d = false) : docs'.filter p = docs.filter p := by
  have hkept : (List.range docs.length).filterMap (fun i => docs[i]?.filter p) =
      ((List.range docs.length).map σ).filterMap fun i => docs'[i]?.filter p := by
    rw [List.filterMap_map]
    refine List.filterMap_congr ?_
    intro i hi
    rw [Function.comp_apply, ← hr.kept i (List.mem_range.1 hi)]
    rfl
  rw [filter_eq_filterMap_range, filter_eq_filterMap_range, hkept]
  refine (Ascending.filterMap_eq_filterMap (Ascending.map σ (Ascending.ascending_range _)) (Ascending.ascending_range _)
    ?_ ?_).symm
  · intro pos hpos
    obtain ⟨i, hi, rfl⟩ := List.mem_map.1 hpos
    have hd := (hr.kept i (List.mem_range.1 hi)).trans (List.getElem?_eq_getElem (List.mem_range.1 hi))
    exact List.mem_range.2 (List.getElem?_eq_some_iff.1 hd).1
  · intro pos hpos hout
    have hd := List.getElem?_eq_getElem (List.mem_range.1 hpos)
    obtain ⟨i, hi, he⟩ | hblank := hr.blank pos _ hd
    · exact absurd (List.mem_map.2 ⟨i, List.mem_range.2 hi, he⟩) hout
    · rw [hd, Option.filter_some, hp _ hblank]
      rfl

theorem length_le (hr : Relocated σ.toEmbedding docs docs') : docs.length ≤ docs'.length := by
  cases hn : docs.length with
  | zero => exact Nat.zero_le _
  | succ n =>
    have hlt : n < docs.length := by omega
    have hd := (hr.kept n hlt).trans (List.getElem?_eq_getElem hlt)
    have hbound := (List.getElem?_eq_some_iff.1 hd).1
    have hle : n ≤ σ n := σ.strictMono.le_apply
    exact Nat.lt_of_le_of_lt hle hbound

end Relocated

namespace Extraction

variable {docs docs' : List Document}

/-- Documents without terms have nothing to intern. -/
theorem lexiconAfter_filter (lex : Lexicon) (docs : List Document) :
    lexiconAfter lex (docs.filter fun d => !d.terms.isEmpty) = lexiconAfter lex docs := by
  induction docs generalizing lex with
  | nil => rfl
  | cons d ds ih =>
    have hall : lexiconAfter lex (d :: ds) = lexiconAfter (lex.internAll d.terms).2 ds := rfl
    rw [hall, ← ih, List.filter_cons]
    cases hterms : d.terms with
    | nil => rfl
    | cons t ts =>
      have hcons : ∀ rest, lexiconAfter lex (d :: rest) = lexiconAfter (lex.internAll d.terms).2 rest := fun _ => rfl
      simp only [List.isEmpty_cons, Bool.not_false, if_true, hcons, hterms]

theorem lexiconAfter_relocated (hr : Relocated σ.toEmbedding docs docs') (lex : Lexicon) :
    lexiconAfter lex docs' = lexiconAfter lex docs := by
  rw [← lexiconAfter_filter lex docs', ← lexiconAfter_filter lex docs, hr.filter_eq]
  intro d hd
  rw [hd]
  rfl

/-- A term is in as many documents. -/
theorem count_countDocuments_relocated (hr : Relocated σ.toEmbedding docs docs') (lex : Lexicon) (t : TermId) :
    (countDocuments (docs'.map (tallyOf lex))).count t = (countDocuments (docs.map (tallyOf lex))).count t := by
  rw [count_countDocuments, count_countDocuments, List.countP_map, List.countP_map, List.countP_eq_length_filter,
    List.countP_eq_length_filter, hr.filter_eq]
  intro d hd
  rw [Function.comp_apply, tallyOf, hd]
  rfl

variable {α : Type} [Scalar α] [Scalar.Normal α]

/-- A count of documents is within a share of one. -/
theorem not_share_lt {m n : ℕ} (h : m ≤ n) : ¬(1 : α) * (n : α) < (m : α) :=
  Scalar.not_lt_of_le (Scalar.Normal.natCast_le_one_mul h)

/-- With frequencies for weights and a share of one, the weight of a term takes no notice of the number of documents. -/
theorem weigh_of_frequency {e : Extraction α} (hweighting : e.weighting = .frequency) (hshare : e.maxShare = 1) {n : ℕ}
    {df : Tally} {entry : TermId × ℕ} (h : df.count entry.1 ≤ n) :
    e.weigh n df entry = some (entry.1, if entry.2 = 0 ∨ df.count entry.1 = 0 then 0 else (entry.2 : α)) := by
  unfold weigh
  simp only [hshare, hweighting]
  rw [if_neg (not_share_lt h)]
  rfl

theorem pairsOf_relocated {e : Extraction α} (hweighting : e.weighting = .frequency) (hshare : e.maxShare = 1)
    (hr : Relocated σ.toEmbedding docs docs') (lex : Lexicon) (d : Document) :
    pairsOf e lex docs' d = pairsOf e lex docs d := by
  have hspread : ∀ t, (countDocuments (docs.map (tallyOf (lexiconAfter lex docs)))).count t ≤ docs.length := by
    intro t
    rw [count_countDocuments]
    exact List.countP_le_length.trans_eq (List.length_map _)
  unfold pairsOf
  rw [lexiconAfter_relocated hr]
  refine List.filterMap_congr ?_
  intro entry _
  have hcount := count_countDocuments_relocated hr (lexiconAfter lex docs) entry.1
  rw [weigh_of_frequency hweighting hshare (hspread entry.1), weigh_of_frequency hweighting hshare, hcount]
  rw [hcount]
  exact (hspread entry.1).trans hr.length_le

end Extraction

/-! ## Later places in the same order -/

section Moved

variable {α : Type}

/-- The approximation with its documents at the places that `σ` gives. -/
def Approximation.move (σ : ℕ ↪ ℕ) (a : Approximation α) : Approximation α :=
  { a with members := a.members.map (Prod.map σ id) }

/-- The candidate with its documents at the places that `σ` gives. -/
def Candidate.move (σ : ℕ ↪ ℕ) (a : Candidate α) : Candidate α := { a with approximation := a.approximation.move σ }

/-- The topic with its documents at the places that `σ` gives. -/
def Topic.move (σ : ℕ ↪ ℕ) (t : Topic α) : Topic α := { t with members := t.members.map (Member.move σ) }

theorem Topic.positions_move (σ : ℕ ↪ ℕ) (t : Topic α) : (t.move σ).positions = t.positions.map σ := by
  unfold Topic.move Topic.positions
  rw [List.map_map, List.map_map]
  rfl

/-- What covers the same documents at places in the same order is the moved approximation. -/
theorem Approximation.Relocated.eq_move {size : ℕ} {a a' : Approximation α} (h : a.Relocated σ.toEmbedding size a') :
    a' = a.move σ.toEmbedding := by
  obtain ⟨terms, members⟩ := a
  obtain ⟨terms', members'⟩ := a'
  obtain rfl : terms' = terms := h.terms
  have hasc : members'.Pairwise fun p q => p.1 < q.1 := List.pairwise_map.1 h.ascending'
  have hmoved : (members.map (Prod.map σ.toEmbedding id)).Pairwise fun p q => p.1 < q.1 := by
    refine List.pairwise_map.2 ((List.pairwise_map.1 h.ascending).imp ?_)
    intro p q hpq
    exact σ.strictMono hpq
  have hmembers : members' = members.map (Prod.map σ.toEmbedding id) :=
    h.members.eq_of_pairwise (fun p q _ _ hpq hqp => absurd hqp (Nat.lt_asymm hpq)) hasc hmoved
  rw [hmembers]
  rfl

variable [Scalar α] {c c' : Corpus α}

namespace Corpus.Relocated

variable (hr : c.Relocated σ.toEmbedding c')
include hr

theorem holders_eq (t : TermId) : c'.holders t = (c.holders t).map σ :=
  (c'.ascending_holders t).ext (Ascending.map σ (c.ascending_holders t)) fun _ => (hr.perm_holders t).mem_iff

/-- The weights of a term are added in the same order. -/
theorem aggregateWeight_eq (t : TermId) :
    c'.aggregateWeight t (c'.holders t) = c.aggregateWeight t (c.holders t) := by
  unfold aggregateWeight
  rw [hr.holders_eq, List.filterMap_map]
  refine congrArg Scalar.sum (List.filterMap_congr ?_)
  intro pos hpos
  rw [Function.comp_apply, ← hr.vector pos (c.mem_holders.1 hpos).1]
  rfl

end Corpus.Relocated

/-! ## Ranking and labels -/

namespace Ranking

variable (σ : ℕ ↪ ℕ)

/-- A ranked candidate at the places that `σ` gives. -/
def move (r : Candidate α × Score α) : Candidate α × Score α := (r.1.move σ, r.2)

omit [Scalar α] in
theorem memberships_move (a : Approximation α) : (a.move σ).members.map Prod.snd = a.members.map Prod.snd := by
  unfold Approximation.move
  rw [List.map_map]
  rfl

theorem score_move (a : Candidate α) : Score.ofCandidate (a.move σ) = Score.ofCandidate a := by
  have hsize : (a.approximation.move σ).members.length = a.approximation.members.length := List.length_map _
  have hempty : (a.approximation.move σ).members.isEmpty = a.approximation.members.isEmpty := List.isEmpty_map
  unfold Score.ofCandidate Candidate.size Approximation.meanMembership Approximation.isEmpty Approximation.size
  simp only [Candidate.move, memberships_move, hsize, hempty]

theorem rank_move (cs : List (Candidate α)) : rank (cs.map (Candidate.move σ)) = (rank cs).map (move σ) := by
  have hbest : ∀ a b : Candidate α × Score α, bestFirst (move σ a) (move σ b) = bestFirst a b := fun _ _ => rfl
  unfold rank
  rw [Sorting.map_sort (move σ) _ fun a _ b _ => hbest a b, List.map_map, List.map_map]
  refine congrArg (Sorting.sort bestFirst) (List.map_congr_left ?_)
  intro a _
  rw [Function.comp_apply, score_move]
  rfl

end Ranking

/-- The library's labels depend on the vectors of a topic's documents, not on their places. -/
theorem Labeler.byCohesion_move {σ : ℕ ↪ ℕ} {t : Topic α} (h : ∀ pos ∈ t.positions, c'.vector (σ pos) = c.vector pos)
    (lex : Lexicon) (limit : ℕ) : byCohesion (t.move σ) c' lex limit = byCohesion t c lex limit := by
  have hvectors : (t.move σ).positions.map c'.vector = t.positions.map c.vector := by
    rw [Topic.positions_move, List.map_map]
    exact List.map_congr_left h
  have hcontributions : contributions (t.move σ) c' = contributions t c := by
    unfold contributions
    rw [hvectors]
    rfl
  unfold byCohesion
  rw [hcontributions]

/-! ## A run -/

namespace Clusterer

variable [Scalar.Rounded α] {τ : α} {f : Measure α} {s s' : ToleranceSpace α} {k : Clusterer α}

/-- A candidate becomes the same topic at the later places, with the same figures and labels. -/
theorem labelTopic_move (hr : c.Relocated σ.toEmbedding c') {μ : α} {a : Candidate α}
    (ha : a.approximation.Faithful c μ) (lex : Lexicon) (limit : ℕ) (score : Score α) :
    labelTopic Labeler.byCohesion c' lex limit (topicOf c' (a.move σ.toEmbedding, score)) =
      (labelTopic Labeler.byCohesion c lex limit (topicOf c (a, score))).move σ.toEmbedding := by
  have hbound : ∀ p ∈ a.approximation.members, p.1 < c.size :=
    fun p hp => (Candidate.relocated_coveredIn hr ha).bounded p.1 (List.mem_map_of_mem hp)
  have htopic : topicOf c' (a.move σ.toEmbedding, score) = (topicOf c (a, score)).move σ.toEmbedding := by
    unfold topicOf Topic.move
    simp only [Candidate.move, Approximation.move, List.map_map]
    congr 1
    refine List.map_congr_left ?_
    intro p hp
    rw [Function.comp_apply, Function.comp_apply, Prod.map_fst, Prod.map_snd, hr.id p.1 (hbound p hp)]
    rfl
  have hvectors : ∀ pos ∈ (topicOf c (a, score)).positions, c'.vector (σ.toEmbedding pos) = c.vector pos := by
    intro pos hpos
    rw [Topic.positions, topicOf, List.map_map] at hpos
    obtain ⟨p, hp, rfl⟩ := List.mem_map.1 hpos
    exact hr.vector p.1 (hbound p hp)
  rw [htopic]
  unfold labelTopic
  rw [Labeler.byCohesion_move hvectors]
  rfl

/-- The topics are the same ones in the same order, at the later places. -/
theorem topics_move (hk : k.labeler = Labeler.byCohesion) (hr : c.Relocated σ.toEmbedding c')
    (h : ToleranceSpace.build c τ f = .ok s) (h' : ToleranceSpace.build c' τ f = .ok s')
    (hseeds : s'.selectSeeds c' k.settings.seeds = s.selectSeeds c k.settings.seeds) (lex : Lexicon) :
    (k.clusterCorpus lex c' s').topics = (k.clusterCorpus lex c s).topics.map (Topic.move σ.toEmbedding) := by
  have hleft := faithful_left k.settings h
  have hmoved : (merge s c k.settings.mergeRule (candidates k.settings s c)).1.map
        (Candidate.coveredIn c' k.settings.minMembership) =
      (merge s c k.settings.mergeRule (candidates k.settings s c)).1.map (Candidate.move σ.toEmbedding) := by
    refine List.map_congr_left ?_
    intro a ha
    have happroximation := (Candidate.relocated_coveredIn hr (hleft a ha)).eq_move
    rw [Candidate.move, ← happroximation]
    rfl
  rw [topics_eq, topics_eq, merge_candidates_coveredIn hr h h' hseeds, hmoved, Ranking.rank_move, hk, List.map_map,
    List.map_map]
  refine List.map_congr_left ?_
  rintro ⟨a, score⟩ hmem
  have ha : a ∈ (merge s c k.settings.mergeRule (candidates k.settings s c)).1 := by
    obtain ⟨b, hb, he⟩ := List.mem_map.1 ((Sorting.perm_sort Ranking.bestFirst _).mem_iff.1 hmem)
    obtain ⟨rfl, -⟩ := Prod.mk.inj he
    exact hb
  exact labelTopic_move hr (hleft a ha) lex _ score

end Clusterer

end Moved

/-- The clustering `r'` of `docs'` is the clustering `r` of `docs`, but for documents without terms that stand between the
others in `docs'`: these are in the rest, with membership zero. -/
structure Clustering.Undisturbed {α : Type} [Scalar α] (σ : ℕ ↪o ℕ) (docs docs' : List Document) (r r' : Clustering α) :
    Prop where
  topics : r'.topics = r.topics.map (Topic.move σ.toEmbedding)
  merges : r'.merges = r.merges
  ascending : Ascending r'.rest.positions
  rest : ∀ m, m ∈ r'.rest.members ↔ (∃ m₀ ∈ r.rest.members, m₀.move σ.toEmbedding = m) ∨
    ((∀ p < docs.length, σ p ≠ m.position) ∧ (∃ d, docs'[m.position]? = some d ∧ m.document = d.id) ∧ m.membership = 0)
  blank : ∀ pos, (∀ p < docs.length, σ p ≠ pos) → ∀ t ∈ r'.topics, pos ∉ t.positions

namespace Clusterer

variable {α : Type} [Scalar α] [Scalar.Normal α] {k : Clusterer α} {docs docs' : List Document}

/-- The corpora of both batches. -/
theorem corpusOf_relocated (hweighting : k.settings.weighting = .frequency) (hshare : k.settings.maxTermShare = 1)
    (hr : Relocated σ.toEmbedding docs docs') (lex : Lexicon) :
    (k.corpusOf lex docs).Relocated σ.toEmbedding (k.corpusOf lex docs') :=
  Extraction.extract_relocated _ hr fun d _ => Extraction.pairsOf_relocated hweighting hshare hr lex d

/-- The seeds of both batches: more documents make room for no further term, and none loses its place. -/
theorem selectSeeds_of_full_share (hseeds : k.settings.seeds.maxShare = 1) {c c' : Corpus α}
    (hr : c.Relocated σ.toEmbedding c') (hle : c.size ≤ c'.size) {τ : α} {f : Measure α} {s s' : ToleranceSpace α}
    (h : ToleranceSpace.build c τ f = .ok s) (h' : ToleranceSpace.build c' τ f = .ok s') :
    s'.selectSeeds c' k.settings.seeds = s.selectSeeds c k.settings.seeds := by
  have heligible : ∀ n documents : ℕ, n ≤ documents →
      k.settings.seeds.eligible documents n = decide (k.settings.seeds.minDocuments ≤ n) := by
    intro n documents hn
    unfold SeedPolicy.eligible
    rw [hseeds, decide_eq_true (Scalar.Normal.natCast_le_one_mul hn), Bool.and_true]
  refine ToleranceSpace.selectSeeds_relocated hr h h' ?_ (Or.inr hr.aggregateWeight_eq)
  intro n hn
  rw [heligible n _ hn, heligible n _ (hn.trans hle)]

end Clusterer

/-- A run over binary64 that weights terms by their frequency and leaves none out for being in too many documents is not
disturbed by documents without terms, wherever they stand among the others. It interns the same terms and returns the same
topics in the same order, with the same ids, memberships, figures and labels, and makes the same merges; in the rest there
are, besides the documents that were there, the ones without terms, with membership zero. -/
theorem blank_documents_do_not_interfere (k : Clusterer Float) (hk : k.labeler = Labeler.byCohesion)
    (hweighting : k.settings.weighting = .frequency) (hshare : k.settings.maxTermShare = 1.0)
    (hseeds : k.settings.seeds.maxShare = 1.0) (lex : Lexicon) {σ : ℕ ↪o ℕ} {docs docs' : List Document}
    (hr : Relocated σ.toEmbedding docs docs') :
    ∃ r r', (k.cluster lex docs false).1 = .ok r ∧ (k.cluster lex docs' false).1 = .ok r' ∧
      (k.cluster lex docs' false).2 = (k.cluster lex docs false).2 ∧ r.Undisturbed σ docs docs' r' := by
  obtain ⟨s, hs⟩ := k.exists_space lex docs
  obtain ⟨s', hs'⟩ := k.exists_space lex docs'
  have hcorpus := Clusterer.corpusOf_relocated hweighting hshare hr lex
  have hle : (k.corpusOf lex docs).size ≤ (k.corpusOf lex docs').size := by
    rw [k.size_corpusOf, k.size_corpusOf]
    exact hr.length_le
  have hselected := Clusterer.selectSeeds_of_full_share hseeds hcorpus hle hs hs'
  have hlexicon : (Extraction.extract k.extraction lex docs').2 = (Extraction.extract k.extraction lex docs).2 := by
    rw [Extraction.extract_eq, Extraction.extract_eq]
    exact Extraction.lexiconAfter_relocated hr lex
  have htopics := Clusterer.topics_move hk hcorpus hs hs' hselected (Extraction.extract k.extraction lex docs).2
  have hrun := k.cluster_eq lex docs' hs'
  rw [hlexicon] at hrun
  refine ⟨_, _, k.cluster_eq lex docs hs, hrun, ?_, htopics, ?_, ?_, ?_, ?_⟩
  · rw [k.lexicon_cluster, k.lexicon_cluster]
    exact Extraction.lexiconAfter_relocated hr lex
  · exact Clusterer.merges_relocated hcorpus hs hs' hselected _ _
  · exact Clusterer.ascending_uncovered _ _
  · intro m
    refine (Clusterer.mem_rest_relocated hcorpus hs hs' hselected (Extraction.extract k.extraction lex docs).2 _ m).trans
      (or_congr_right ?_)
    rw [k.size_corpusOf, k.size_corpusOf]
    constructor
    · rintro ⟨hlt, hout, hid, hzero⟩
      have hd := List.getElem?_eq_getElem hlt
      exact ⟨hout, ⟨_, hd, hid.trans (Extraction.id_extract _ _ _ hd)⟩, hzero⟩
    · rintro ⟨hout, ⟨d, hd, hid⟩, hzero⟩
      exact ⟨(List.getElem?_eq_some_iff.1 hd).1, hout, hid.trans (Extraction.id_extract _ _ _ hd).symm, hzero⟩
  · intro pos hout t ht hpos
    rw [htopics] at ht
    obtain ⟨t₀, ht₀, rfl⟩ := List.mem_map.1 ht
    rw [Topic.positions_move] at hpos
    obtain ⟨p, hp, rfl⟩ := List.mem_map.1 hpos
    have hlt := (exact_of_mem_topics k _ hs t₀ ht₀).lt_size hp
    rw [k.size_corpusOf] at hlt
    exact hout p hlt rfl

/-- Two menus. -/
def menus : List Document := [⟨0, ["soup", "bread"], none⟩, ⟨1, ["bread", "cheese", "soup"], none⟩]

/-- The menus, with blank ones before and between them. -/
def menusWithBlanks : List Document :=
  [⟨7, [], none⟩, ⟨0, ["soup", "bread"], none⟩, ⟨8, ["", ""], none⟩, ⟨1, ["bread", "cheese", "soup"], none⟩]

/-- Every second place, from the first one on. -/
def everySecond : ℕ ↪o ℕ := OrderEmbedding.ofStrictMono (fun pos => 2 * pos + 1) fun a b hab => by
  simp only
  omega

theorem blank_documents_do_not_interfere_menus :
    Clusterer.usual.labeler = Labeler.byCohesion ∧ Relocated everySecond.toEmbedding menus menusWithBlanks ∧
      ∃ r r', (Clusterer.usual.cluster Lexicon.empty menus false).1 = .ok r ∧
        (Clusterer.usual.cluster Lexicon.empty menusWithBlanks false).1 = .ok r' ∧
        r.Undisturbed everySecond menus menusWithBlanks r' := by
  have hr : Relocated everySecond.toEmbedding menus menusWithBlanks := by
    constructor
    · intro pos hpos
      match pos, hpos with
      | 0, _ => rfl
      | 1, _ => rfl
    · intro pos d hd
      match pos with
      | 0 =>
        obtain rfl := Option.some.inj hd
        exact Or.inr (by decide)
      | 1 => exact Or.inl ⟨0, by decide, rfl⟩
      | 2 =>
        obtain rfl := Option.some.inj hd
        exact Or.inr (by decide)
      | 3 => exact Or.inl ⟨1, by decide, rfl⟩
      | _ + 4 => cases hd
  obtain ⟨r, r', hrun, hrun', -, hsame⟩ :=
    blank_documents_do_not_interfere Clusterer.usual rfl rfl rfl rfl Lexicon.empty hr
  exact ⟨rfl, hr, r, r', hrun, hrun', hsame⟩

end ToleranceClustering
