import ToleranceClustering.Proofs.Contributions
import ToleranceClustering.Proofs.ExactLaws
import ToleranceClustering.Proofs.Topics

/-!
# Contributions explain the score

Without rounding, nothing gets lost between the documents of a topic and its labels. The shares of a document's weight
that lie on the topic's terms add up to its membership (`sum_shares`), and a table of contributions holds as much as was
put into it (`sum_contributions`). So the contributions of all terms together are the memberships of all members, which
is the score of the topic (`contributions_explain_scores`).
-/

namespace ToleranceClustering

open Exact

/-! ## Tables of sums -/

theorem Table.sum_alterEntries (k : Nat) (x : Exact) (es : List (Nat × Exact)) :
    ((Table.alterEntries k (fun w => w.getD 0 + x) es).map fun e => e.2.value).sum =
      (es.map fun e => e.2.value).sum + x.value := by
  induction es with
  | nil => simp [alterEntries]
  | cons e es ih =>
    rw [alterEntries]
    split
    · simp only [List.map_cons, List.sum_cons, Option.getD_none, add_value, zero_value]
      ring
    · split
      · simp only [List.map_cons, List.sum_cons, Option.getD_some, add_value]
        ring
      · rw [List.map_cons, List.sum_cons, ih, List.map_cons, List.sum_cons, add_assoc]

/-- What a table holds after some numbers were added to it, wherever they went. -/
theorem TermVector.sum_foldl_accumulate (pairs : List (Nat × Exact)) (tab : Table Exact) :
    (Scalar.sum (pairs.foldl accumulate tab).values).value =
      (Scalar.sum tab.values).value + (pairs.map fun p => p.2.value).sum := by
  induction pairs generalizing tab with
  | nil => simp
  | cons p pairs ih =>
    have hadd : (Scalar.sum (accumulate tab p).values).value = (Scalar.sum tab.values).value + p.2.value := by
      rw [sum_value, sum_value, Table.values, Table.values, List.map_map, List.map_map]
      exact Table.sum_alterEntries p.1 p.2 tab.entries
    rw [List.foldl_cons, ih, hadd, List.map_cons, List.sum_cons, add_assoc]

/-! ## Memberships -/

/-- The weight on some terms lies between zero and all of it. -/
theorem inside_mem_total (v : TermVector Exact) (ts : List TermId) :
    0 ≤ Scalar.sum (inside v ts) ∧ Scalar.sum (inside v ts) ≤ v.total :=
  ⟨Scalar.sum_nonneg (inside_nonneg v ts),
    Scalar.sum_le_sum (List.Sublist.map _ List.filter_sublist) (weights_nonneg v)⟩

/-- A total that is not positive is nothing. -/
theorem TermVector.total_value_eq_zero {v : TermVector Exact} (h : v.total ≤ 0) : v.total.value = 0 :=
  le_antisymm h (le_iff.1 (Scalar.sum_nonneg (weights_nonneg v)))

/-- The membership is the share itself: it never has to be cut off. -/
theorem membership_value (v : TermVector Exact) (ts : List TermId) :
    (membership v ts).value = (Scalar.sum (inside v ts)).value / v.total.value := by
  obtain ⟨hnonneg, hle⟩ := inside_mem_total v ts
  rw [membership_eq]
  split
  · rename_i htotal
    rw [TermVector.total_value_eq_zero htotal, div_zero]
    rfl
  · rename_i htotal
    have hpos : 0 < v.total.value := not_le.1 htotal
    rw [Scalar.clamp_of_between]
    · rfl
    · exact not_lt.2 (div_nonneg (le_iff.1 hnonneg) hpos.le)
    · exact not_lt.2 ((div_le_one hpos).2 (le_iff.1 hle))

/-- Nothing is a member of no terms. -/
theorem ne_nil_of_membership_pos {v : TermVector Exact} {ts : List TermId} (h : 0 < membership v ts) : ts ≠ [] := by
  rintro rfl
  exact not_membership_pos (fun t ht => absurd ht List.not_mem_nil) h

namespace Labeler

variable {topic : Topic Exact} {c : Corpus Exact}

/-- The shares of a document's weight that lie on the terms of a topic add up to its membership. -/
theorem sum_shares (hterms : topic.terms ≠ []) (v : TermVector Exact) :
    ((shares topic v).map fun p => p.2.value).sum = (membership v topic.terms).value := by
  rw [membership_value, sum_value, inside, List.map_map, shares]
  split
  · rename_i htotal
    rw [TermVector.total_value_eq_zero htotal, div_zero]
    rfl
  · simp only [admits_of_ne_nil hterms, List.map_map, Function.comp_def, div_value, div_eq_mul_inv,
      List.sum_map_mul_right]

/-- All that a table of contributions holds is what the documents put into it. -/
theorem sum_contributions (topic : Topic Exact) (c : Corpus Exact) :
    (Scalar.sum (contributions topic c).values).value =
      (topic.positions.map fun pos => ((shares topic (c.vector pos)).map fun p => p.2.value).sum).sum := by
  rw [contributions_eq, TermVector.sum_foldl_accumulate, allShares, List.map_flatMap, List.flatMap_def, List.sum_flatten,
    List.map_map]
  exact zero_add _

end Labeler

/-! ## Topics -/

/-- The memberships add up to their number times their mean. -/
theorem Approximation.sum_members (a : Approximation Exact) :
    Scalar.sum (a.members.map Prod.snd) = (a.size : Exact) * a.meanMembership := by
  ext
  rw [meanMembership, mul_value, natCast_value]
  split
  · rename_i hempty
    rw [List.isEmpty_iff.1 hempty, zero_value, mul_zero]
    rfl
  · rename_i hne
    have hsize : (a.size : ℝ) ≠ 0 := by
      rw [Nat.cast_ne_zero, size, Ne, List.length_eq_zero_iff, ← List.isEmpty_iff]
      exact hne
    rw [div_value, natCast_value, mul_div_cancel₀ _ hsize]

/-- A topic that its contributions explain: those of all terms add up to the memberships of its members, and these to its
score; the terms are its own, and in one of its documents each. -/
structure Labeler.Explained (c : Corpus Exact) (t : Topic Exact) : Prop where
  memberships : Scalar.sum (contributions t c).values = Scalar.sum (t.members.map Member.membership)
  cohesion : Scalar.sum (t.members.map Member.membership) = (t.size : Exact) * t.cohesion
  score : (t.size : Exact) * t.cohesion = t.score
  terms : ∀ u ∈ (contributions t c).keys,
    u ∈ t.terms ∧ ∃ m ∈ t.members, (c.vector m.position).contains u = true

variable {c : Corpus Exact} {s : ToleranceSpace Exact} {settings : Settings Exact} {t : Topic Exact}

/-- A topic with a document has terms. -/
theorem terms_ne_of_exact (h : t.Exact c s settings) {m : Member Exact} (hm : m ∈ t.members) : t.terms ≠ [] := by
  obtain ⟨-, hpos, -, heq, -⟩ := (h.mem_members m).1 hm
  rw [heq] at hpos
  exact ne_nil_of_membership_pos hpos

/-- The contributions to an exact topic are its memberships. -/
theorem sum_contributions_of_exact (h : t.Exact c s settings) :
    Scalar.sum (Labeler.contributions t c).values = Scalar.sum (t.members.map Member.membership) := by
  ext
  rw [Labeler.sum_contributions, sum_value, Topic.positions, List.map_map, List.map_map]
  refine congrArg List.sum (List.map_congr_left ?_)
  intro m hm
  obtain ⟨-, -, -, heq, -⟩ := (h.mem_members m).1 hm
  calc ((Labeler.shares t (c.vector m.position)).map fun p => p.2.value).sum
      = (membership (c.vector m.position) t.terms).value := Labeler.sum_shares (terms_ne_of_exact h hm) _
    _ = m.membership.value := by rw [← heq]

/-- Only its own terms contribute to an exact topic. -/
theorem mem_terms_of_contribution (h : t.Exact c s settings) {u : TermId}
    (hu : u ∈ (Labeler.contributions t c).keys) :
    u ∈ t.terms ∧ ∃ m ∈ t.members, (c.vector m.position).contains u = true := by
  obtain ⟨hadmits, pos, hpos, hcontains⟩ := Labeler.exists_of_mem_keys hu
  obtain ⟨m, hm, rfl⟩ := List.mem_map.1 hpos
  rw [Labeler.admits_of_ne_nil (terms_ne_of_exact h hm), List.contains_iff_mem] at hadmits
  exact ⟨hadmits, m, hm, hcontains⟩

/-- Every topic of a run is explained by its contributions. -/
theorem explained_of_mem_topics (k : Clusterer Exact) (lex : Lexicon) {τ : Exact} {f : Measure Exact}
    (h : ToleranceSpace.build c τ f = .ok s) (ht : t ∈ (k.clusterCorpus lex c s).topics) : Labeler.Explained c t := by
  have hexact := exact_of_mem_topics k lex h t ht
  obtain ⟨a, -, rfl⟩ := List.mem_map.1 ((k.perm_topicFrom lex c s).mem_iff.1 ht)
  have hmembers : (k.topicFrom lex c a).members.map Member.membership = a.approximation.members.map Prod.snd :=
    List.map_map
  refine ⟨sum_contributions_of_exact hexact, ?_, ?_, fun u => mem_terms_of_contribution hexact⟩
  · rw [hmembers, k.size_topicFrom]
    exact a.approximation.sum_members
  · rw [k.size_topicFrom]
    rfl

/-- Without rounding, the contributions of all terms to a topic of a run add up to the memberships of its members, and
these to its size times its cohesion, which is its score. Each contributing term is one of the topic's, and stands in one
of its documents. -/
theorem contributions_explain_scores (k : Clusterer Exact) (lex : Lexicon) (docs : List Document) :
    ∃ r, (k.cluster lex docs false).1 = .ok r ∧ ∀ t ∈ r.topics, Labeler.Explained (k.corpusOf lex docs) t ∧
      ∀ u ∈ (Labeler.contributions t (k.corpusOf lex docs)).keys, ∃ m ∈ t.members, ∃ d, docs[m.position]? = some d ∧
        ∃ word ∈ d.terms, (Extraction.lexiconAfter lex docs).number word = u := by
  obtain ⟨s, hs⟩ := k.exists_space lex docs
  refine ⟨_, k.cluster_eq lex docs hs, ?_⟩
  intro t ht
  have hexplained := explained_of_mem_topics k _ hs ht
  refine ⟨hexplained, ?_⟩
  intro u hu
  obtain ⟨-, m, hm, hcontains⟩ := hexplained.terms u hu
  have hlt := (k.corpusOf lex docs).lt_size_of_contains hcontains
  rw [k.size_corpusOf] at hlt
  have hdoc := List.getElem?_eq_getElem hlt
  exact ⟨m, hm, _, hdoc, Extraction.exists_of_contains hdoc hcontains⟩

end ToleranceClustering
