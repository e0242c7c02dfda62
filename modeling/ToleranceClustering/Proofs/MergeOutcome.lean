import ToleranceClustering.Proofs.Topics

/-!
# What merging returns

What can be said of the candidates that merging leaves and of the history beside them, for first candidates numbered in
their order: how they overlap, which of the first candidates they came from, and what each step recorded.
-/

namespace ToleranceClustering

open Agglomeration MergeState MergeHistory

variable {α : Type} [Scalar α] {c : Corpus α} {s : ToleranceSpace α} {rule : MergeRule α} {cs : List (Candidate α)}

/-- Candidates as merging takes them: numbered in their order, with ascending seeds and terms. -/
structure Agglomeration.Numbered (cs : List (Candidate α)) : Prop where
  ids : cs.map Candidate.id = List.range cs.length
  seeds : ∀ d ∈ cs, Ascending d.seeds
  terms : ∀ d ∈ cs, Ascending d.approximation.terms

/-- No set of documents here has more members than a machine word counts. -/
def Agglomeration.Countable (c : Corpus α) (cs : List (Candidate α)) : Prop :=
  c.size < 2 ^ 64 ∧ ∀ d ∈ cs, d.size < 2 ^ 64

/-- What a step of a history says, given the steps before it: the overlap of two candidates that were left, which reached
the threshold, and the number of documents that the joined terms of its tree cover, which the kept candidate has after the
step. -/
structure Agglomeration.StepSound (s : ToleranceSpace α) (c : Corpus α) (rule : MergeRule α) (cs : List (Candidate α))
    (before : List (MergeStep α)) (step : MergeStep α) : Prop where
  joins : ∃ st, Reaches s c rule cs before st ∧ ∃ a ∈ st.candidates, ∃ b ∈ st.candidates,
    a.id = step.kept ∧ b.id = step.absorbed ∧ a.approximation.overlap b.approximation = step.overlap
  not_below : ¬step.overlap < rule.threshold
  reached : Countable c cs → rule.threshold ≤ step.overlap
  size : step.size =
    (c.approximate (gather (fun d => d.approximation.terms) cs (before ++ [step]) step.kept) rule.minMembership).size
  after : ∃ st, Reaches s c rule cs (before ++ [step]) st ∧ ∃ a ∈ st.candidates, a.id = step.kept ∧ a.size = step.size

/-- What merging returns: the candidates that are left, and the steps. -/
structure Agglomeration.MergeOutcome (s : ToleranceSpace α) (c : Corpus α) (rule : MergeRule α) (cs : List (Candidate α))
    (left : List (Candidate α)) (history : List (MergeStep α)) : Prop where
  bounded : history.length ≤ cs.length - 1
  apart : left.Pairwise fun a b => a.approximation.overlap b.approximation < rule.threshold
  distinct : rule.threshold ≤ 1 → left.Pairwise fun a b =>
    a.approximation.positions = b.approximation.positions → a.approximation.positions = []
  forest : IsForest cs.length history
  ids : left.map Candidate.id = standing cs.length history
  count : left.length + history.length = cs.length
  seeds : ∀ a ∈ left, a.seeds = gather Candidate.seeds cs history a.id
  terms : ∀ a ∈ left, a.approximation.terms = gather (fun d => d.approximation.terms) cs history a.id
  no_seed_lost : ∀ t, (∃ a ∈ left, t ∈ a.seeds) ↔ ∃ d ∈ cs, t ∈ d.seeds
  no_seed_doubled : left.Pairwise fun a b => ∀ t, t ∈ a.seeds → t ∈ b.seeds →
    ∃ d ∈ cs, ∃ e ∈ cs, d.id ≠ e.id ∧ t ∈ d.seeds ∧ t ∈ e.seeds
  steps : ∀ before step after, history = before ++ step :: after → StepSound s c rule cs before step

namespace MergeState

/-- Every turn makes one step and leaves one candidate less. -/
theorem Reaches.length_add_length {history : List (MergeStep α)} {st : MergeState α}
    (hr : Reaches s c rule cs history st) : st.candidates.length + history.length = cs.length := by
  induction hr with
  | start => rfl
  | turn hr hn ih =>
    rw [hr.eq_start] at hn
    have hl := length_of_next? s c rule hn
    rw [List.length_append, List.length_singleton]
    omega

/-- Merging never takes the last candidate. -/
theorem Reaches.length_le {history : List (MergeStep α)} {st : MergeState α} (hr : Reaches s c rule cs history st) :
    history.length ≤ cs.length - 1 := by
  have hl := hr.length_add_length
  cases hr with
  | start => exact Nat.zero_le _
  | turn hr hn =>
    rw [hr.eq_start] at hn
    have hone := length_of_next? s c rule hn
    obtain ⟨i, j, a, b, hij, -, hb, -, -, -⟩ := next?_start_some s c rule hn
    have hj := (List.getElem?_eq_some_iff.1 hb).1
    omega

end MergeState

section Rounded

variable [Scalar.Rounded α] {τ : α} {f : Measure α}

open Scalar Scalar.Ordered Scalar.Rounded

/-- Candidates that overlap less than completely have different documents, or none. -/
theorem positions_ne_of_overlap_lt {θ : α} (hθ : θ ≤ 1) {a b : Approximation α} (h : a.overlap b < θ)
    (he : a.positions = b.positions) : a.positions = [] := by
  by_contra hne
  rw [Approximation.overlap_of_positions_eq he hne] at h
  have hpos : 0 < a.size := by
    rw [← Approximation.length_positions]
    exact List.length_pos_of_ne_nil hne
  exact not_div_self_lt_one hpos (lt_of_lt_of_le h hθ)

/-- The overlap of document sets that can be counted is a number. -/
theorem overlap_number {a b : Approximation α} (ha : a.size < 2 ^ 64) (hb : b.size < 2 ^ 64) :
    a.overlap b ≤ a.overlap b := by
  have hl := Ascending.sharedCount_le_left a.positions b.positions
  have hr := Ascending.sharedCount_le_right a.positions b.positions
  rw [Approximation.length_positions] at hl hr
  unfold Approximation.overlap
  simp only
  split
  · exact zero_le_zero
  · exact div_natCast_number (by omega) (by omega) (by omega)

theorem size_of_reaches (h : ToleranceSpace.build c τ f = .ok s) (hc : Countable c cs) {history : List (MergeStep α)}
    {st : MergeState α} (hr : Reaches s c rule cs history st) : ∀ d ∈ st.candidates, d.size < 2 ^ 64 := by
  refine forall_of_reaches hc.2 ?_ hr
  intro a b _ _
  have hle := c.size_approximate_le (a.approximation.terms ++ b.approximation.terms) rule.minMembership
  rw [← ToleranceSpace.approximate_eq_approximate h] at hle
  exact Nat.lt_of_le_of_lt hle hc.1

/-- Every step of a history is sound. -/
theorem stepSound_of_reaches (h : ToleranceSpace.build c τ f = .ok s) (hcs : Numbered cs)
    (hnum : rule.threshold ≤ rule.threshold) {history : List (MergeStep α)} {st : MergeState α}
    (hr : Reaches s c rule cs history st) {before after : List (MergeStep α)} {step : MergeStep α}
    (hsplit : history = before ++ step :: after) :
    StepSound s c rule cs before step := by
  obtain ⟨prior, hp, a, ha, b, hb, hθ, rfl, posterior, hq, hm⟩ := step_of_reaches hr hsplit
  refine ⟨⟨prior, hp, a, ha, b, hb, rfl, rfl, rfl⟩, hθ, ?_, ?_, posterior, hq, _, hm, rfl, rfl⟩
  · intro hc
    have hsize := size_of_reaches h hc hp
    exact le_of_not_lt hnum (overlap_number (hsize a ha) (hsize b hb)) hθ
  · have hterms := eq_gather_of_reaches (f := fun d => d.approximation.terms) (fun _ _ => rfl) hcs.ids hcs.terms hq _ hm
    have hset : ∀ u, u ∈ a.approximation.terms ++ b.approximation.terms ↔
        u ∈ (absorb s c rule.minMembership a b).approximation.terms := fun u => Ascending.mem_ofList.symm
    have happ : (absorb s c rule.minMembership a b).approximation =
        c.approximate (absorb s c rule.minMembership a b).approximation.terms rule.minMembership := by
      rw [← c.approximate_congr hset, ← ToleranceSpace.approximate_eq_approximate h]
      rfl
    show (absorb s c rule.minMembership a b).approximation.size = _
    rw [happ, hterms]
    rfl

/-- Merging candidates that are numbered in their order has the outcome described. -/
theorem outcome_merge (h : ToleranceSpace.build c τ f = .ok s) (hcs : Numbered cs)
    (hnum : rule.threshold ≤ rule.threshold) :
    MergeOutcome s c rule cs (merge s c rule cs).1 (merge s c rule cs).2 := by
  obtain ⟨last, hr, hlast, hnone⟩ := reaches_merge s c rule cs
  have hrooted := rooted_of_reaches hcs.ids hr
  have hapart : last.candidates.Pairwise fun a b => a.approximation.overlap b.approximation < rule.threshold := by
    rw [hr.eq_start] at hnone
    exact pairwise_of_bestPair?_none hnone
  rw [← hlast]
  refine ⟨hr.length_le, hapart, ?_, hrooted.forest, hrooted.ids, hr.length_add_length, ?_, ?_, ?_, ?_, ?_⟩
  · intro hθ
    exact hapart.imp fun hlt => positions_ne_of_overlap_lt hθ hlt
  · exact eq_gather_of_reaches (fun _ _ => rfl) hcs.ids hcs.seeds hr
  · exact eq_gather_of_reaches (f := fun d => d.approximation.terms) (fun _ _ => rfl) hcs.ids hcs.terms hr
  · exact exists_mem_survivor (fun _ _ => rfl) hcs.ids hr
  · exact shared_of_survivors (fun _ _ => rfl) hcs.ids hr
  · exact fun before step after hsplit => stepSound_of_reaches h hcs hnum hr hsplit

end Rounded

/-! ## One document -/

/-- Every candidate of a corpus with a single document covers that document. -/
theorem Candidate.Sound.positions_of_size_one {settings : Settings α} {a : Candidate α} (ha : a.Sound settings s c)
    (hmin : 0 < settings.minClusterSize) (hone : c.size = 1) : a.approximation.positions = [0] := by
  have hlarge := Nat.lt_of_lt_of_le hmin ha.large
  rw [← Approximation.length_positions] at hlarge
  rw [ha.approximation, c.positions_approximate, Corpus.covered, hone, List.range_one] at hlarge ⊢
  by_cases hcovers : c.Covers (s.classUnion a.seeds) settings.minMembership 0
  · rw [List.filter_singleton, decide_eq_true hcovers]
    rfl
  · rw [List.filter_singleton, decide_eq_false hcovers] at hlarge
    exact absurd hlarge (Nat.lt_irrefl 0)

/-- With a single document there is one topic at most: no two candidates that are left overlap less than completely. -/
theorem length_topics_of_size_one [Scalar.Rounded α] {τ : α} {f : Measure α} (k : Clusterer α) (lex : Lexicon)
    (h : ToleranceSpace.build c τ f = .ok s) (hone : c.size = 1) : (k.clusterCorpus lex c s).topics.length ≤ 1 := by
  obtain ⟨last, hr, hlast, hnone⟩ := reaches_merge s c k.settings.mergeRule (Clusterer.candidates k.settings s c)
  have hlen : (k.clusterCorpus lex c s).topics.length = last.candidates.length := by
    rw [k.length_topics, hlast]
  have hpositions : ∀ a ∈ last.candidates, a.approximation.positions = [0] := by
    intro a ha
    exact (sound_of_reaches h hr a ha).positions_of_size_one k.inRange.minClusterSize hone
  rw [hr.eq_start] at hnone
  have hapart := pairwise_of_bestPair?_none hnone
  rw [hlen]
  cases hl : last.candidates with
  | nil => exact Nat.zero_le 1
  | cons a rest =>
    cases rest with
    | nil => exact Nat.le_refl 1
    | cons b rest =>
      rw [hl] at hapart hpositions
      have hlt := (List.pairwise_cons.1 hapart).1 b List.mem_cons_self
      have ha := hpositions a List.mem_cons_self
      have hb := hpositions b (List.mem_cons_of_mem _ List.mem_cons_self)
      have hnil := positions_ne_of_overlap_lt k.inRange.mergeThreshold.2 hlt (ha.trans hb.symm)
      rw [ha] at hnil
      exact absurd hnil (List.cons_ne_nil 0 [])

/-- Merging over binary64 ends with candidates that overlap below the threshold, and its history joins the first
candidates to a forest whose trees they are. A run on a single document finds one topic at most. -/
theorem merging_joins_a_forest {c : Corpus Float} {s : ToleranceSpace Float} {τ : Float} {f : Measure Float}
    {rule : MergeRule Float} {cs : List (Candidate Float)} (h : ToleranceSpace.build c τ f = .ok s) (hcs : Numbered cs)
    (hnum : rule.threshold ≤ rule.threshold) :
    (∃ left history, mergeUnlessCancelled false s c rule cs = .ok (left, history) ∧
      MergeOutcome s c rule cs left history) ∧
    ∀ (k : Clusterer Float) (lex : Lexicon) (d : Document), ∃ r, (k.cluster lex [d] false).1 = .ok r ∧
      r.topics.length ≤ 1 := by
  refine ⟨⟨_, _, rfl, outcome_merge h hcs hnum⟩, ?_⟩
  intro k lex d
  obtain ⟨s', hs'⟩ := k.exists_space lex [d]
  exact ⟨_, k.cluster_eq lex [d] hs', length_topics_of_size_one k _ hs' (k.size_corpusOf lex [d])⟩

/-- Two documents, of which one has a second term beside the common one. -/
def twoDocuments : Corpus Float := ⟨#[⟨0, .ofPairs [(0, 1), (1, 1)]⟩, ⟨1, .ofPairs [(0, 1)]⟩]⟩

/-- A candidate for either term of the two documents. -/
def twoCandidates : List (Candidate Float) := [⟨0, [0], ⟨[0], [(0, 0.5), (1, 1)]⟩⟩, ⟨1, [1], ⟨[1], [(0, 0.5)]⟩⟩]

/-- Candidates merge when half of their documents are common. -/
def halfRule : MergeRule Float := ⟨0.5, 0.25⟩

theorem merging_joins_two_candidates :
    ∃ s, ToleranceSpace.build twoDocuments halfRule.threshold Similarity.jaccard.measure = .ok s ∧
      Numbered twoCandidates ∧ halfRule.threshold ≤ halfRule.threshold ∧
      ∃ left history, mergeUnlessCancelled false s twoDocuments halfRule twoCandidates = .ok (left, history) ∧
        MergeOutcome s twoDocuments halfRule twoCandidates left history ∧ left ≠ twoCandidates := by
  have hτ : Scalar.withinAbove 0 1 halfRule.threshold = true := by decide +kernel
  have hnum : halfRule.threshold ≤ halfRule.threshold := by decide +kernel
  obtain ⟨s, hs⟩ := ToleranceSpace.exists_build twoDocuments hτ Similarity.jaccard.measure
  have hcs : Numbered twoCandidates := by
    refine ⟨rfl, ?_, ?_⟩
    · simp [twoCandidates, Ascending]
    · simp [twoCandidates, Ascending]
  obtain ⟨⟨left, history, hmerge, hout⟩, -⟩ := merging_joins_a_forest hs hcs hnum
  refine ⟨s, hs, hcs, hnum, left, history, hmerge, hout, ?_⟩
  -- they share one of two documents, which reaches the threshold
  intro he
  have hapart := hout.apart
  rw [he] at hapart
  have hlt := (List.pairwise_cons.1 hapart).1 _ List.mem_cons_self
  exact absurd hlt (by decide +kernel)

end ToleranceClustering
