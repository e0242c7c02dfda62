import ToleranceClustering.Proofs.MergeOutcome

/-!
# Merging under a lower threshold

A lower threshold lets more pairs merge, but it does not change which pair is the best as long as some pair reaches the
higher one (`bestPair?_of_lower`). So the loop takes the turns that it takes under the higher threshold, and then goes on:
merging under the lower threshold is merging under the higher one and then merging what is left (`merge_of_lower`).
-/

namespace ToleranceClustering

variable {α : Type} [Scalar α]

/-! ## The best pair -/

namespace OverlapTable

/-- All overlaps above the diagonal are numbers, so that any two of them compare. -/
def Comparable (t : OverlapTable α) : Prop := ∀ p ∈ t.pairs, p.overlap ≤ p.overlap

/-- Where a search under a lower threshold stands when one under `θ` has come to the first argument: at the same pair, or,
as long as no pair reached `θ`, at none or one below `θ`. -/
def Beside (θ : α) : Option (OverlapPair α) → Option (OverlapPair α) → Prop
  | some p, found => found = some p ∧ θ ≤ p.overlap
  | none, found => ∀ q, found = some q → q.overlap < θ

section Ordered

variable [Scalar.Ordered α] {low high : α}

open Scalar Scalar.Ordered

theorem Beside.better (h : low ≤ high) {best found : Option (OverlapPair α)} (hb : Beside high best found)
    {p : OverlapPair α} (hp : p.overlap ≤ p.overlap) :
    Beside high (OverlapTable.better high best p) (OverlapTable.better low found p) := by
  unfold OverlapTable.better
  by_cases hhigh : p.overlap < high
  · -- the search under the higher threshold passes the pair
    rw [if_pos hhigh]
    cases best with
    | some b =>
      obtain ⟨rfl, hreach⟩ := hb
      have hless : ¬b.overlap < p.overlap := not_lt_of_le (le_of_lt (lt_of_lt_of_le hhigh hreach))
      simp only [hless, if_false, ite_self]
      exact ⟨rfl, hreach⟩
    | none =>
      intro q hq
      split at hq
      · exact hb q hq
      · cases found with
        | none => exact Option.some.inj hq ▸ hhigh
        | some b =>
          simp only at hq
          split at hq
          · exact Option.some.inj hq ▸ hhigh
          · exact hb q hq
  · -- the pair counts in both searches
    have hreach : high ≤ p.overlap := le_of_not_lt (right_number h) hp hhigh
    have hlow : ¬p.overlap < low := not_lt_of_le (le_trans h hreach)
    rw [if_neg hhigh, if_neg hlow]
    cases best with
    | some b =>
      obtain ⟨rfl, hb⟩ := hb
      simp only
      split
      · exact ⟨rfl, hreach⟩
      · exact ⟨rfl, hb⟩
    | none =>
      cases found with
      | none => exact ⟨rfl, hreach⟩
      | some b =>
        have hless : b.overlap < p.overlap := lt_of_lt_of_le (hb b rfl) hreach
        simp only [hless, if_true]
        exact ⟨rfl, hreach⟩

theorem Beside.foldl (h : low ≤ high) {ps : List (OverlapPair α)} (hps : ∀ p ∈ ps, p.overlap ≤ p.overlap)
    {best found : Option (OverlapPair α)} (hb : Beside high best found) :
    Beside high (ps.foldl (OverlapTable.better high) best) (ps.foldl (OverlapTable.better low) found) := by
  induction ps generalizing best found with
  | nil => exact hb
  | cons p ps ih =>
    obtain ⟨hp, hps⟩ := List.forall_mem_cons.1 hps
    exact ih hps (hb.better h hp)

/-- The best pair under a threshold is the best pair under every lower one. -/
theorem bestPair?_of_lower (h : low ≤ high) {t : OverlapTable α} (ht : t.Comparable) {p : OverlapPair α}
    (hp : t.bestPair? high = some p) : t.bestPair? low = some p := by
  have hbeside : Beside high (t.bestPair? high) (t.bestPair? low) := by
    have hstart : Beside high (none : Option (OverlapPair α)) none := nofun
    exact hstart.foldl h ht
  rw [hp] at hbeside
  exact hbeside.1

end Ordered

end OverlapTable

/-! ## Turns -/

namespace MergeState

open Agglomeration

variable {s : ToleranceSpace α} {c : Corpus α} {rule : MergeRule α} {cs : List (Candidate α)}
  {history : List (MergeStep α)} {st : MergeState α}

/-- What the loop reaches from a state that it reached, it reaches from the start. -/
theorem Reaches.trans (hr : Reaches s c rule cs history st) {later : List (MergeStep α)} {last : MergeState α}
    (hl : Reaches s c rule st.candidates later last) : Reaches s c rule cs (history ++ later) last := by
  induction hl with
  | start =>
    rw [List.append_nil, ← hr.eq_start]
    exact hr
  | turn _ hn ih =>
    rw [← List.append_assoc]
    exact ih.turn hn

/-- After the turns that led to a state, the loop goes on from there. -/
theorem Reaches.mergeFrom_eq (hr : Reaches s c rule cs history st) (fuel : Nat) :
    mergeFrom s c rule (history.length + fuel) (OverlapTable.ofCandidates cs) cs =
      ((mergeFrom s c rule fuel st.table st.candidates).1,
        history ++ (mergeFrom s c rule fuel st.table st.candidates).2) := by
  induction hr generalizing fuel with
  | start => rw [List.length_nil, Nat.zero_add]; rfl
  | turn _ hn ih =>
    rw [List.length_append, List.length_singleton, Nat.add_assoc, Nat.add_comm 1 fuel, ih (fuel + 1), mergeFrom_succ, hn,
      List.append_assoc]
    rfl

/-- A state that is reached, and in which no pair reaches the threshold, is where merging ends. -/
theorem Reaches.merge_eq (hr : Reaches s c rule cs history st) (hend : st.table.bestPair? rule.threshold = none) :
    merge s c rule cs = (st.candidates, history) := by
  have hstop : ∀ fuel, mergeFrom s c rule fuel st.table st.candidates = (st.candidates, []) := by
    intro fuel
    cases fuel with
    | zero => rfl
    | succ fuel => rw [mergeFrom, hend]
  have hlen : cs.length = history.length + st.candidates.length := by
    rw [← hr.length_add_length, Nat.add_comm]
  rw [merge, hlen, hr.mergeFrom_eq, hstop, List.append_nil]

section Rounded

variable [Scalar.Rounded α] {τ μ low high : α} {f : Measure α}

/-- Where sets of documents can be counted, the overlaps of candidates compare. -/
theorem comparable_of_reaches (h : ToleranceSpace.build c τ f = .ok s) (hc : Countable c cs)
    (hr : Reaches s c rule cs history st) : st.table.Comparable := by
  have hsize := size_of_reaches h hc hr
  rw [hr.eq_start]
  intro p hp
  obtain ⟨-, a, b, ha, hb, ho⟩ := OverlapTable.mem_pairs_ofCandidates.1 hp
  rw [ho]
  exact overlap_number (hsize a (List.mem_of_getElem? ha)) (hsize b (List.mem_of_getElem? hb))

/-- A turn under a threshold is a turn under every lower one. -/
theorem next?_of_lower (hle : low ≤ high) (ht : st.table.Comparable) {m : MergeState α × MergeStep α}
    (hn : st.next? s c ⟨high, μ⟩ = some m) : st.next? s c ⟨low, μ⟩ = some m := by
  unfold next? at hn ⊢
  cases hp : st.table.bestPair? high with
  | none =>
    simp only [hp] at hn
    nomatch hn
  | some p =>
    simp only [hp] at hn
    simp only [OverlapTable.bestPair?_of_lower hle ht hp]
    exact hn

/-- What the loop reaches under a threshold, it reaches under every lower one. -/
theorem Reaches.of_lower (h : ToleranceSpace.build c τ f = .ok s) (hc : Countable c cs) (hle : low ≤ high)
    (hr : Reaches s c ⟨high, μ⟩ cs history st) : Reaches s c ⟨low, μ⟩ cs history st := by
  induction hr with
  | start => exact .start
  | turn hr hn ih => exact ih.turn (next?_of_lower hle (comparable_of_reaches h hc hr) hn)

end Rounded

end MergeState

/-! ## Runs -/

open Agglomeration MergeState

/-- Merging leaves no more candidates than there were. -/
theorem length_merge_le (s : ToleranceSpace α) (c : Corpus α) (rule : MergeRule α) (cs : List (Candidate α)) :
    (merge s c rule cs).1.length ≤ cs.length := by
  obtain ⟨last, hr, hlast, -⟩ := reaches_merge s c rule cs
  have hlen := hr.length_add_length
  rw [← hlast]
  omega

section Rounded

variable [Scalar.Rounded α] {c : Corpus α} {s : ToleranceSpace α} {τ μ low high : α} {f : Measure α}
  {cs : List (Candidate α)}

/-- Merging under the lower of two thresholds is merging under the higher one, and then merging what is left. -/
theorem merge_of_lower (h : ToleranceSpace.build c τ f = .ok s) (hc : Countable c cs) (hle : low ≤ high) :
    merge s c ⟨low, μ⟩ cs =
      ((merge s c ⟨low, μ⟩ (merge s c ⟨high, μ⟩ cs).1).1,
        (merge s c ⟨high, μ⟩ cs).2 ++ (merge s c ⟨low, μ⟩ (merge s c ⟨high, μ⟩ cs).1).2) := by
  obtain ⟨middle, hmiddle, hleft, -⟩ := reaches_merge s c ⟨high, μ⟩ cs
  obtain ⟨last, hlast, hsurvivors, hend⟩ := reaches_merge s c ⟨low, μ⟩ middle.candidates
  have hr := (hmiddle.of_lower h hc hle).trans hlast
  rw [← hleft, hr.merge_eq hend, hsurvivors]

namespace Clusterer

variable {k k' : Clusterer α} {lex : Lexicon} {docs : List Document}

/-- The first candidates of a run are no larger than its corpus. -/
theorem countable_candidates (h : ToleranceSpace.build c τ f = .ok s) (settings : Settings α) (hc : c.size < 2 ^ 64) :
    Countable c (candidates settings s c) := by
  refine ⟨hc, ?_⟩
  intro a ha
  obtain ⟨t, -, -, happ⟩ := exists_of_mem_candidates ha
  have hle := c.size_approximate_le (s.classTerms t) settings.minMembership
  rw [← ToleranceSpace.approximate_eq_approximate h, ← happ] at hle
  exact Nat.lt_of_le_of_lt hle hc

/-- Of two runs that differ in the merge threshold alone, the one with the lower threshold makes the merges of the other
first, and finds no more topics. -/
theorem topics_of_lower (hdocs : docs.length < 2 ^ 64)
    (hk : k.settings = { k'.settings with mergeThreshold := k.settings.mergeThreshold })
    (hle : k.settings.mergeThreshold ≤ k'.settings.mergeThreshold) :
    ∃ r r', (k.cluster lex docs false).1 = .ok r ∧ (k'.cluster lex docs false).1 = .ok r' ∧
      r'.merges <+: r.merges ∧ r.topics.length ≤ r'.topics.length := by
  have hextraction : k.extraction = k'.extraction := by
    unfold extraction
    rw [hk]
  obtain ⟨hcorpus, s, hspace, hs⟩ := exists_common_space lex docs hextraction (by rw [hk]) (by rw [hk])
  have hcandidates : candidates k.settings s (k'.corpusOf lex docs) =
      candidates k'.settings s (k'.corpusOf lex docs) := by
    rw [hk]
    rfl
  have hrule : k.settings.mergeRule = ⟨k.settings.mergeThreshold, k'.settings.minMembership⟩ := by
    rw [hk]
    rfl
  have hsize : (k'.corpusOf lex docs).size < 2 ^ 64 := by rwa [k'.size_corpusOf]
  have hmerge := merge_of_lower (μ := k'.settings.minMembership) hs (countable_candidates hs k'.settings hsize) hle
  refine ⟨_, _, k.cluster_eq lex docs hspace, k'.cluster_eq lex docs hs, ?_, ?_⟩
  · show (merge s _ k'.settings.mergeRule _).2 <+: (merge s _ k.settings.mergeRule _).2
    rw [hcorpus, hcandidates, hrule, hmerge]
    exact List.prefix_append _ _
  · rw [k.length_topics, k'.length_topics, hcorpus, hcandidates, hrule, hmerge]
    exact length_merge_le _ _ _ _

end Clusterer

end Rounded

/-- Merging over binary64 under the lower of two thresholds makes the merges under the higher one first, and goes on with
what these leave: merging the survivors again gives the survivors and the rest of the history. Of two runs that differ in
the merge threshold alone, the one with the lower threshold therefore never finds more topics. No set of documents has more
members than a machine word counts. -/
theorem lower_threshold_continues :
    (∀ {c : Corpus Float} {s : ToleranceSpace Float} {τ low high : Float} {f : Measure Float}
      {cs : List (Candidate Float)}, ToleranceSpace.build c τ f = .ok s → Countable c cs → low ≤ high → ∀ μ : Float,
      ∃ left history survivors rest, mergeUnlessCancelled false s c ⟨high, μ⟩ cs = .ok (left, history) ∧
        mergeUnlessCancelled false s c ⟨low, μ⟩ left = .ok (survivors, rest) ∧
        mergeUnlessCancelled false s c ⟨low, μ⟩ cs = .ok (survivors, history ++ rest)) ∧
    ∀ (k k' : Clusterer Float) (lex : Lexicon) (docs : List Document), docs.length < 2 ^ 64 →
      k.settings = { k'.settings with mergeThreshold := k.settings.mergeThreshold } →
      k.settings.mergeThreshold ≤ k'.settings.mergeThreshold →
      ∃ r r', (k.cluster lex docs false).1 = .ok r ∧ (k'.cluster lex docs false).1 = .ok r' ∧
        r'.merges <+: r.merges ∧ r.topics.length ≤ r'.topics.length := by
  constructor
  · intro c s τ low high f cs h hc hle μ
    exact ⟨_, _, _, _, rfl, rfl, congrArg Except.ok (merge_of_lower h hc hle)⟩
  · intro k k' lex docs hdocs hk hthreshold
    exact Clusterer.topics_of_lower hdocs hk hthreshold

/-- Two documents with the same two terms, and a third term in the second of them and in a document of its own. -/
def chainedDocuments : Corpus Float :=
  ⟨#[⟨0, .ofPairs [(0, 1), (1, 1)]⟩, ⟨1, .ofPairs [(0, 1), (1, 1), (2, 1)]⟩, ⟨2, .ofPairs [(2, 1)]⟩]⟩

/-- A candidate for each of the three terms: the first two have the same documents, the third shares one of three. -/
def chainedCandidates : List (Candidate Float) :=
  [⟨0, [0], ⟨[0], [(0, 0.5), (1, 0.25)]⟩⟩, ⟨1, [1], ⟨[1], [(0, 0.5), (1, 0.25)]⟩⟩, ⟨2, [2], ⟨[2], [(1, 0.25), (2, 1)]⟩⟩]

/-- The same documents as texts. -/
def teaTable : List Document := [⟨0, ["cup", "tea"], none⟩, ⟨1, ["cup", "tea", "spoon"], none⟩, ⟨2, ["spoon"], none⟩]

/-- The usual settings with a low merge threshold. -/
def eager : Clusterer Float :=
  ⟨{ Settings.standard with mergeThreshold := 0.25 }, by decide +kernel, Labeler.byCohesion⟩

/-- The usual settings with a high merge threshold. -/
def reluctant : Clusterer Float :=
  ⟨{ Settings.standard with mergeThreshold := 0.75 }, by decide +kernel, Labeler.byCohesion⟩

theorem lower_threshold_continues_chain :
    (∃ s, ToleranceSpace.build chainedDocuments 0.5 Similarity.jaccard.measure = .ok s ∧
      Countable chainedDocuments chainedCandidates ∧ (0.25 : Float) ≤ 0.75 ∧
      ∃ left history survivors rest,
        mergeUnlessCancelled false s chainedDocuments ⟨0.75, 0.25⟩ chainedCandidates = .ok (left, history) ∧
        mergeUnlessCancelled false s chainedDocuments ⟨0.25, 0.25⟩ left = .ok (survivors, rest) ∧
        mergeUnlessCancelled false s chainedDocuments ⟨0.25, 0.25⟩ chainedCandidates = .ok (survivors, history ++ rest) ∧
        history.length = 1 ∧ rest.length = 1) ∧
    eager.settings = { reluctant.settings with mergeThreshold := eager.settings.mergeThreshold } ∧
      eager.settings.mergeThreshold ≤ reluctant.settings.mergeThreshold ∧
      ∃ r r', (eager.cluster Lexicon.empty teaTable false).1 = .ok r ∧
        (reluctant.cluster Lexicon.empty teaTable false).1 = .ok r' ∧ r'.merges <+: r.merges ∧
        r.topics.length ≤ r'.topics.length := by
  have hτ : Scalar.withinAbove 0 1 (0.5 : Float) = true := by decide +kernel
  have hle : (0.25 : Float) ≤ 0.75 := by decide +kernel
  have hc : Countable chainedDocuments chainedCandidates := by
    refine ⟨by decide +kernel, ?_⟩
    decide +kernel
  obtain ⟨s, hs⟩ := ToleranceSpace.exists_build chainedDocuments hτ Similarity.jaccard.measure
  obtain ⟨left, history, survivors, rest, hhigh, hagain, hlow⟩ := lower_threshold_continues.1 hs hc hle 0.25
  have hk : eager.settings = { reluctant.settings with mergeThreshold := eager.settings.mergeThreshold } := rfl
  have hthreshold : eager.settings.mergeThreshold ≤ reluctant.settings.mergeThreshold := by decide +kernel
  have hruns := lower_threshold_continues.2 eager reluctant Lexicon.empty teaTable (by decide) hk hthreshold
  refine ⟨⟨s, hs, hc, hle, left, history, survivors, rest, hhigh, hagain, hlow, ?_⟩, hk, hthreshold, hruns⟩
  have hlengths : (ToleranceSpace.build chainedDocuments 0.5 Similarity.jaccard.measure).toOption.map (fun s =>
      ((merge s chainedDocuments ⟨0.75, 0.25⟩ chainedCandidates).2.length,
        (merge s chainedDocuments ⟨0.25, 0.25⟩ chainedCandidates).2.length)) = some (1, 2) := by decide +kernel
  have hfirst : (merge s chainedDocuments ⟨0.75, 0.25⟩ chainedCandidates).2 = history :=
    congrArg Prod.snd (Except.ok.inj hhigh)
  have hboth : (merge s chainedDocuments ⟨0.25, 0.25⟩ chainedCandidates).2 = history ++ rest :=
    congrArg Prod.snd (Except.ok.inj hlow)
  rw [hs, Except.toOption, Option.map_some, hfirst, hboth, List.length_append, Option.some.injEq, Prod.mk.injEq] at hlengths
  omega

end ToleranceClustering
