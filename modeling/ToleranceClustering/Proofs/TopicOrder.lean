import ToleranceClustering.Proofs.Binary64.TotalOrder
import ToleranceClustering.Proofs.Topics

/-!
# The order of topics

Ranking puts the higher score first (`Score.order`), then the larger candidate, then the smaller first seed
(`Ranking.Precedes`); candidates with the same keys stay in the order they came in (`Ranking.InOrder`). With different
first seeds no two candidates have the same keys, and nothing is left to the order they came in (`rank_eq_of_perm`).

The candidates that a run is left with have no seeds in common, so their topics come in the one strict order that score,
size and first seed fix (`topics_in_strict_order`). Memberships are not negative, so the scores of topics are numbers.
-/

namespace ToleranceClustering

open Agglomeration MergeState

variable {α : Type} [Scalar α]

/-! ## Keys -/

/-- How two scores compare: as numbers in their total order. An undefined score is below every other. -/
def Score.order (a b : Score α) : Ordering := (compare b.undefined a.undefined).then (Scalar.order a.score b.score)

namespace Ranking

/-- A ranked candidate comes before another: its score is higher; or as high, and it has more documents; or as many, and
the smaller first seed, which no seed at all is below. -/
def Precedes (p q : Candidate α × Score α) : Prop :=
  Score.order q.2 p.2 = .lt ∨ Score.order q.2 p.2 = .eq ∧
    (q.2.size < p.2.size ∨ q.2.size = p.2.size ∧ p.1.firstSeed? < q.1.firstSeed?)

/-- Two ranked candidates have the same score, size and first seed. -/
def SameKeys (p q : Candidate α × Score α) : Prop :=
  Score.order q.2 p.2 = .eq ∧ q.2.size = p.2.size ∧ p.1.firstSeed? = q.1.firstSeed?

instance (p q : Candidate α × Score α) : Decidable (SameKeys p q) := inferInstanceAs (Decidable (_ ∧ _ ∧ _))

/-- A ranking of candidates: each with its own score, in the order of the keys, and as they came in where the keys are the
same. -/
structure InOrder (cs : List (Candidate α)) (ranked : List (Candidate α × Score α)) : Prop where
  scored : ranked.Perm (cs.map fun c => (c, Score.ofCandidate c))
  ordered : ranked.Pairwise fun p q => Precedes p q ∨ SameKeys p q
  stable : ∀ q, (ranked.filter fun p => SameKeys p q) =
    (cs.map fun c => (c, Score.ofCandidate c)).filter fun p => SameKeys p q

/-- Comparing first seeds puts a missing one first. -/
theorem compare_firstSeed_lt {a b : Option TermId} : compare a b = .lt ↔ a < b := by
  rcases a with - | t <;> rcases b with - | u
  · exact iff_of_false nofun id
  · exact iff_of_true rfl trivial
  · exact iff_of_false nofun id
  · exact compare_lt_iff_lt (a := t) (b := u)

/-- Keys compared one after the other, the larger size first. -/
theorem keys_lt {o : Ordering} {m n : Nat} {a b : Option TermId} :
    (o.then (compare n m)).then (compare a b) = .lt ↔ o = .lt ∨ o = .eq ∧ (n < m ∨ n = m ∧ a < b) := by
  rw [Ordering.then_eq_lt, Ordering.then_eq_lt, Ordering.then_eq_eq, compare_lt_iff_lt, compare_eq_iff_eq,
    compare_firstSeed_lt]
  tauto

theorem bestFirst_eq_lt {p q : Candidate α × Score α} : bestFirst p q = .lt ↔ Precedes p q := keys_lt

theorem bestFirst_eq_eq {p q : Candidate α × Score α} : bestFirst p q = .eq ↔ SameKeys p q := by
  have hkeys : bestFirst p q = ((Score.order q.2 p.2).then (compare q.2.size p.2.size)).then
      (compare p.1.firstSeed? q.1.firstSeed?) := rfl
  have hseed : compare p.1.firstSeed? q.1.firstSeed? = .eq ↔ p.1.firstSeed? = q.1.firstSeed? :=
    Std.LawfulEqCmp.compare_eq_iff_eq
  rw [hkeys, Ordering.then_eq_eq, Ordering.then_eq_eq, compare_eq_iff_eq, hseed, and_assoc, SameKeys]

/-! ## Ranking -/

section Ranked

variable [Scalar.Ranked α]

/-- The best candidate first is a total order. -/
instance : Std.TransCmp (bestFirst : Candidate α × Score α → Candidate α × Score α → Ordering) :=
  have : Std.TransCmp fun x y : α => Scalar.order y x := Std.TransCmp.opposite
  have : Std.TransCmp fun m n : Nat => compare n m := Std.TransCmp.opposite
  inferInstanceAs (Std.TransCmp (compareLex (compareLex (compareLex
    (compareOn fun p : Candidate α × Score α => p.2.undefined)
    (Ordering.byKey (fun p : Candidate α × Score α => p.2.score) fun x y : α => Scalar.order y x))
    (Ordering.byKey (fun p : Candidate α × Score α => p.2.size) fun m n : Nat => compare n m))
    (compareOn fun p : Candidate α × Score α => p.1.firstSeed?)))

theorem inOrder_rank (cs : List (Candidate α)) : InOrder cs (rank cs) where
  scored := Sorting.perm_sort bestFirst _
  ordered := by
    refine (Sorting.pairwise_sort_of_transCmp bestFirst _).imp ?_
    intro p q hle
    rw [← bestFirst_eq_lt, ← bestFirst_eq_eq]
    exact Ordering.isLE_iff_eq_lt_or_eq_eq.1 hle
  stable := by
    intro q
    have hkeys : (fun p : Candidate α × Score α => decide (SameKeys p q)) = fun p => bestFirst p q == .eq := by
      funext p
      rw [Bool.eq_iff_iff, decide_eq_true_iff, beq_iff_eq, bestFirst_eq_eq]
    rw [hkeys]
    exact Sorting.filter_sort q _

omit [Scalar.Ranked α] in
/-- Candidates with different first seeds never have the same keys. -/
theorem apart_of_firstSeeds {cs : List (Candidate α)} (h : cs.Pairwise fun a b => a.firstSeed? ≠ b.firstSeed?) :
    Sorting.Apart bestFirst (cs.map fun c => (c, Score.ofCandidate c)) := by
  refine List.pairwise_map.2 (h.imp ?_)
  intro a b hne he
  exact hne (bestFirst_eq_eq.1 he).2.2

/-- With different first seeds, the ranking does not depend on the order of the candidates. -/
theorem rank_eq_of_perm {cs ds : List (Candidate α)} (h : cs.Pairwise fun a b => a.firstSeed? ≠ b.firstSeed?)
    (hperm : cs.Perm ds) : rank cs = rank ds :=
  Sorting.sort_eq_of_perm (apart_of_firstSeeds h) (hperm.map _)

end Ranked

end Ranking

/-! ## Defined scores -/

namespace Scalar

variable [Rounded α]

open Ordered Rounded

theorem cancelsFrom_of_nonneg {xs : List α} (h : ∀ x ∈ xs, 0 ≤ x) {acc : α} (hacc : 0 ≤ acc) :
    cancelsFrom acc xs = false := by
  induction xs generalizing acc with
  | nil => rfl
  | cons x xs ih =>
    obtain ⟨hx, hxs⟩ := List.forall_mem_cons.1 h
    have hsum := add_nonneg hacc hx
    have hnumber : isNumber (acc + x) = true := decide_eq_true (right_number hsum)
    simp [cancelsFrom, hnumber, ih hxs hsum]

/-- Adding numbers that are not negative never ends in what is no number. -/
theorem cancels_of_nonneg {xs : List α} (h : ∀ x ∈ xs, 0 ≤ x) : cancels xs = false := by
  cases xs with
  | nil => rfl
  | cons x xs =>
    obtain ⟨hx, hxs⟩ := List.forall_mem_cons.1 h
    exact cancelsFrom_of_nonneg hxs hx

end Scalar

namespace Candidate.Sound

variable {settings : Settings α} {c : Corpus α} {s : ToleranceSpace α} {a b : Candidate α}

/-- The memberships of a sound candidate are positive. -/
theorem memberships_pos (ha : a.Sound settings s c) : ∀ m ∈ a.approximation.members.map Prod.snd, 0 < m := by
  rw [ha.approximation, c.members_approximate, List.map_map]
  intro m hm
  obtain ⟨pos, hpos, rfl⟩ := List.mem_map.1 hm
  exact (c.mem_covered.1 hpos).2.1

theorem defined [Scalar.Rounded α] (ha : a.Sound settings s c) : (Score.ofCandidate a).undefined = false :=
  Scalar.cancels_of_nonneg fun m hm => Scalar.Ordered.le_of_lt (ha.memberships_pos m hm)

/-- Sound candidates without a common seed have different first seeds. -/
theorem firstSeed?_ne (ha : a.Sound settings s c) (h : ∀ t ∈ a.seeds, t ∉ b.seeds) : a.firstSeed? ≠ b.firstSeed? := by
  obtain ⟨t, rest, hseeds⟩ := List.exists_cons_of_ne_nil ha.seeds_ne
  intro he
  have hhead : b.seeds.head? = some t := by
    rw [← show b.firstSeed? = b.seeds.head? from rfl, ← he, firstSeed?, hseeds]
    rfl
  exact h t (hseeds ▸ List.mem_cons_self) (List.mem_of_head? hhead)

end Candidate.Sound

/-! ## Topics -/

namespace Topic

/-- The seed with the smallest number. -/
def firstSeed? (t : Topic α) : Option TermId := t.seeds.head?

/-- A topic comes before another: its score is higher; or as high, and it has more documents; or as many, and the smaller
first seed. -/
def Before (t u : Topic α) : Prop :=
  Scalar.order u.score t.score = .lt ∨ Scalar.order u.score t.score = .eq ∧
    (u.size < t.size ∨ u.size = t.size ∧ t.firstSeed? < u.firstSeed?)

/-- No topic comes before one that comes before it. -/
theorem Before.asymm [Scalar.Ranked α] {t u : Topic α} (h : t.Before u) : ¬u.Before t := by
  have hkeys : ∀ {v w : Topic α}, v.Before w ↔ ((Scalar.order w.score v.score).then (compare w.size v.size)).then
      (compare v.firstSeed? w.firstSeed?) = .lt := Ranking.keys_lt.symm
  have hscore : Scalar.order t.score u.score = (Scalar.order u.score t.score).swap := Std.OrientedCmp.eq_swap
  have hsize : compare t.size u.size = (compare u.size t.size).swap := Std.OrientedCmp.eq_swap
  have hseed : compare u.firstSeed? t.firstSeed? = (compare t.firstSeed? u.firstSeed?).swap := Std.OrientedCmp.eq_swap
  rw [hkeys] at h ⊢
  -- the comparison the other way round compares each key so
  rw [hscore, hsize, hseed, ← Ordering.swap_then, ← Ordering.swap_then, h]
  nofun

end Topic

namespace Clusterer

variable {c : Corpus α} {s : ToleranceSpace α}

theorem before_of_precedes {a b : Candidate α} (ha : (Score.ofCandidate a).undefined = false)
    (hb : (Score.ofCandidate b).undefined = false)
    (h : Ranking.Precedes (a, Score.ofCandidate a) (b, Score.ofCandidate b)) (k : Clusterer α) (lex : Lexicon)
    (c : Corpus α) : (k.topicFrom lex c a).Before (k.topicFrom lex c b) := by
  have hsize : ∀ d : Candidate α, (k.topicFrom lex c d).size = (Score.ofCandidate d).size := k.size_topicFrom lex c
  have hscore : Score.order (Score.ofCandidate b) (Score.ofCandidate a) =
      Scalar.order (k.topicFrom lex c b).score (k.topicFrom lex c a).score := by
    rw [Score.order, ha, hb]
    rfl
  rw [Ranking.Precedes, hscore, ← hsize, ← hsize] at h
  exact h

section Ranked

variable [Scalar.Ranked α] {τ : α} {f : Measure α}

/-- The candidates that a run is left with are sound and have different first seeds. -/
theorem merged_spec (k : Clusterer α) (h : ToleranceSpace.build c τ f = .ok s) :
    (∀ a ∈ (merge s c k.settings.mergeRule (candidates k.settings s c)).1, a.Sound k.settings s c) ∧
      (merge s c k.settings.mergeRule (candidates k.settings s c)).1.Pairwise
        fun a b => a.firstSeed? ≠ b.firstSeed? := by
  obtain ⟨last, hr, hlast, -⟩ := reaches_merge s c k.settings.mergeRule (candidates k.settings s c)
  have hsound := sound_of_reaches h hr
  rw [← hlast]
  exact ⟨hsound, (disjoint_seeds_of_reaches hr).imp_of_mem fun ha _ => (hsound _ ha).firstSeed?_ne⟩

/-- Every topic comes before those behind it. -/
theorem pairwise_topics (k : Clusterer α) (lex : Lexicon) (h : ToleranceSpace.build c τ f = .ok s) :
    (k.clusterCorpus lex c s).topics.Pairwise Topic.Before := by
  obtain ⟨hsound, hseeds⟩ := k.merged_spec h
  rw [topics_eq, List.pairwise_map]
  refine (Ranking.apart_of_firstSeeds hseeds).pairwise_sort ?_
  refine List.forall_mem_map.2 fun a ha => List.forall_mem_map.2 fun b hb hlt => ?_
  exact before_of_precedes (hsound a ha).defined (hsound b hb).defined (Ranking.bestFirst_eq_lt.1 hlt) k lex c

end Ranked

end Clusterer

/-! ## Scores over binary64 -/

/-- The score of a sound candidate is a number that is not negative. -/
theorem Candidate.Sound.score_nonneg {settings : Settings Float} {c : Corpus Float} {s : ToleranceSpace Float}
    {a : Candidate Float} (ha : a.Sound settings s c) (hmin : 0 < settings.minClusterSize) (hfit : c.size < 2 ^ 64) :
    0 ≤ (Score.ofCandidate a).score := by
  have hpos : 0 < a.approximation.size := hmin.trans_le ha.large
  have hsize : a.approximation.size < 2 ^ 128 := by
    have hle := c.size_approximate_le (s.classUnion a.seeds) settings.minMembership
    rw [← ha.approximation] at hle
    omega
  have hmean : a.approximation.meanMembership =
      Scalar.sum (a.approximation.members.map Prod.snd) / Float.ofNat a.approximation.size := by
    refine if_neg fun hempty => ?_
    rw [Approximation.size, List.isEmpty_iff.1 hempty] at hpos
    exact lt_irrefl 0 hpos
  have hsum := Scalar.sum_nonneg fun m hm => Scalar.Ordered.le_of_lt (ha.memberships_pos m hm)
  have hproduct := Binary64.nonneg_ofNat_mul hpos hsize (Binary64.nonneg_div_ofNat hpos hsize hsum)
  rw [← hmean] at hproduct
  exact hproduct

/-- Scores of topics that come in strict order do not rise. -/
theorem Topic.Before.score_le {t u : Topic Float} (h : t.Before u) (ht : 0 ≤ t.score) (hu : 0 ≤ u.score) :
    u.score ≤ t.score := by
  refine Binary64.le_of_order hu ht (Ordering.isLE_iff_eq_lt_or_eq_eq.2 ?_)
  exact h.imp_right And.left

/-- Ranking binary64 scores: the candidates, each with its own score, in the order of the keys, where those with the same
keys stay in the order they came in; with different first seeds that order does not matter. The topics of a run have
seeds, and no two have one in common; they come in the one order in which each comes before those behind it, and their
scores do not rise. -/
theorem topics_in_strict_order :
    (∀ cs : List (Candidate Float), Ranking.InOrder cs (Ranking.rank cs)) ∧
      (∀ cs ds : List (Candidate Float), cs.Pairwise (fun a b => a.firstSeed? ≠ b.firstSeed?) → cs.Perm ds →
        Ranking.rank cs = Ranking.rank ds) ∧
      ∀ (k : Clusterer Float) (lex : Lexicon) (docs : List Document), ∃ r, (k.cluster lex docs false).1 = .ok r ∧
        (∀ t ∈ r.topics, t.seeds ≠ []) ∧ r.topics.Pairwise (fun t u => ∀ x ∈ t.seeds, x ∉ u.seeds) ∧
        r.topics.Pairwise Topic.Before ∧
        (∀ ts : List (Topic Float), ts.Perm r.topics → ts.Pairwise Topic.Before → ts = r.topics) ∧
        (docs.length < 2 ^ 64 → r.topics.Pairwise fun t u => u.score ≤ t.score) := by
  refine ⟨Ranking.inOrder_rank, fun cs ds => Ranking.rank_eq_of_perm, ?_⟩
  intro k lex docs
  obtain ⟨s, hs⟩ := k.exists_space lex docs
  have hbefore := k.pairwise_topics (Extraction.lexiconAfter lex docs) hs
  have hseeds := (seeds_topics k (Extraction.lexiconAfter lex docs) (k.corpusOf lex docs) s).1
  refine ⟨_, k.cluster_eq lex docs hs, fun t ht => (exact_of_mem_topics k _ hs t ht).seeds_ne, hseeds, hbefore, ?_, ?_⟩
  · intro ts hperm hts
    exact hperm.eq_of_pairwise (fun t u _ _ htu hut => absurd hut htu.asymm) hts hbefore
  · intro hfit
    have hsize : (k.corpusOf lex docs).size < 2 ^ 64 := by rwa [k.size_corpusOf]
    have hnonneg : ∀ t ∈ (k.clusterCorpus (Extraction.lexiconAfter lex docs) (k.corpusOf lex docs) s).topics,
        0 ≤ t.score := by
      intro t ht
      obtain ⟨a, ha, rfl⟩ := List.mem_map.1 ((k.perm_topicFrom _ _ s).mem_iff.1 ht)
      exact ((k.merged_spec hs).1 a ha).score_nonneg k.inRange.minClusterSize hsize
    exact hbefore.imp_of_mem fun ht hu h => h.score_le (hnonneg _ ht) (hnonneg _ hu)

/-- Two candidates of the same figures. -/
def evenCandidates : List (Candidate Float) := [⟨0, [5], ⟨[5], [(0, 1)]⟩⟩, ⟨1, [3], ⟨[3], [(1, 1)]⟩⟩]

/-- Where scores and sizes are the same, the smaller first seed comes first, whichever candidate did. -/
theorem rank_of_even_candidates : evenCandidates.Pairwise (fun a b => a.firstSeed? ≠ b.firstSeed?) ∧
    evenCandidates.Perm evenCandidates.reverse ∧
    Ranking.rank evenCandidates = Ranking.rank evenCandidates.reverse ∧
    (Ranking.rank evenCandidates).map (fun r => r.1.firstSeed?) = [some 3, some 5] := by
  have hseeds : evenCandidates.Pairwise (fun a b => a.firstSeed? ≠ b.firstSeed?) := by decide
  have hperm := (List.reverse_perm evenCandidates).symm
  exact ⟨hseeds, hperm, topics_in_strict_order.2.1 _ _ hseeds hperm, by decide +kernel⟩

end ToleranceClustering
