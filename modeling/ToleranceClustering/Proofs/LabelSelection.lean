import ToleranceClustering.Proofs.Binary64.TotalOrder
import ToleranceClustering.Proofs.Contributions

/-!
# The selection of labels

Which terms describe a topic best (`BestLabels`): of those that contribute to it, the ones that contribute most, terms
that contribute alike by their texts and then by their numbers, as many as are asked for.

The labeler sorts what it finds in its table of contributions. Its order puts of any two terms one before the other, so it
chooses these terms in whatever order the table is read (`labels_explain_most`).
-/

namespace ToleranceClustering
namespace Labeler

open Scalar (Ranked)

/-! ## What is asked for -/

section

variable {α : Type} [Scalar α]

/-- The text of a term, empty where none is known. -/
def textOf (lex : Lexicon) (t : TermId) : String := (lex.term? t).getD ""

/-- A term explains more of a topic than another: it contributes more, or as much and has the smaller text, or as much
and has the same text and the smaller number. -/
def ExplainsMore (topic : Topic α) (c : Corpus α) (lex : Lexicon) (t u : TermId) : Prop :=
  contributionOf topic c u < contributionOf topic c t ∨ contributionOf topic c u = contributionOf topic c t ∧
    (textOf lex t < textOf lex u ∨ textOf lex t = textOf lex u ∧ t < u)

/-- Terms are the best labels of a topic: as many contributors as asked for or as there are, what explains more first, and
each before all contributors left out. -/
structure BestLabels (topic : Topic α) (c : Corpus α) (lex : Lexicon) (limit : Nat) (labels : List TermId) : Prop where
  nodup : labels.Nodup
  length : labels.length = min limit (contributors topic c).length
  positive : ∀ t ∈ labels, 0 < contributionOf topic c t
  known : topic.terms ≠ [] → ∀ t ∈ labels, t ∈ topic.terms
  ordered : labels.Pairwise (ExplainsMore topic c lex)
  best : ∀ t ∈ labels, ∀ u ∈ contributors topic c, u ∉ labels → ExplainsMore topic c lex t u

end

/-! ## Order -/

variable {α : Type} [Scalar α] [Ranked α] (topic : Topic α) (c : Corpus α) (lex : Lexicon)

/-- The stronger contribution first is a total order. -/
instance : Std.TransCmp (strongerFirst lex : TermId × α → TermId × α → Ordering) :=
  have : Std.TransCmp fun x y : α => Scalar.order y x := Std.TransCmp.opposite
  inferInstanceAs (Std.TransCmp (compareLex
    (compareLex (Ordering.byKey Prod.snd fun x y : α => Scalar.order y x)
      (compareOn fun e : TermId × α => textOf lex e.1))
    (compareOn (Prod.fst : TermId × α → TermId))))

omit [Ranked α] in
/-- Contributions of different terms never compare equal. -/
theorem apart_of_nodup {es : List (TermId × α)} (h : (es.map Prod.fst).Nodup) :
    Sorting.Apart (strongerFirst lex) es := by
  refine (List.pairwise_map.1 h).imp ?_
  intro a b hne he
  exact hne (compare_eq_iff_eq.1 (Ordering.then_eq_eq.1 he).2)

/-- The contributor that is put first explains more. -/
theorem explainsMore_of_strongerFirst {t u : TermId} (ht : 0 < contributionOf topic c t)
    (hu : 0 < contributionOf topic c u)
    (h : strongerFirst lex (t, contributionOf topic c t) (u, contributionOf topic c u) = .lt) :
    ExplainsMore topic c lex t u := by
  rw [strongerFirst, Ordering.then_eq_lt, Ordering.then_eq_lt, Ordering.then_eq_eq] at h
  rcases h with (hlt | ⟨heq, htext⟩) | ⟨⟨heq, htext⟩, hnumber⟩
  · exact Or.inl ((Ranked.order_eq_lt hu ht).1 hlt)
  · have hcontribution := Scalar.lt_or_eq_of_order hu ht (by rw [heq]; rfl)
    exact hcontribution.imp_right fun he => ⟨he, Or.inl (compare_lt_iff_lt.1 htext)⟩
  · have hcontribution := Scalar.lt_or_eq_of_order hu ht (by rw [heq]; rfl)
    exact hcontribution.imp_right fun he =>
      ⟨he, Or.inr ⟨compare_eq_iff_eq.1 htext, compare_lt_iff_lt.1 hnumber⟩⟩

/-! ## Ranking -/

/-- The contributors, what explains more first. -/
def rankedContributors : List TermId :=
  (Sorting.sort (strongerFirst lex) ((contributors topic c).map fun t => (t, contributionOf topic c t))).map Prod.fst

omit [Ranked α] in
theorem perm_rankedContributors : (rankedContributors topic c lex).Perm (contributors topic c) :=
  Sorting.perm_map_fst_sort (strongerFirst lex) (contributionOf topic c) _

omit [Ranked α] in
theorem nodup_contributors : (contributors topic c).Nodup := (c.ascending_vocabulary.filter _).nodup

omit [Ranked α] in
theorem nodup_rankedContributors : (rankedContributors topic c lex).Nodup :=
  (perm_rankedContributors topic c lex).nodup_iff.2 (nodup_contributors topic c)

/-- A ranked contributor explains more than those behind it. -/
theorem pairwise_rankedContributors : (rankedContributors topic c lex).Pairwise (ExplainsMore topic c lex) := by
  have hapart : Sorting.Apart (strongerFirst lex)
      ((contributors topic c).map fun t => (t, contributionOf topic c t)) := by
    refine apart_of_nodup lex ?_
    rw [List.map_map]
    exact (List.map_id (contributors topic c)).symm ▸ nodup_contributors topic c
  refine List.pairwise_map.2 (hapart.pairwise_sort ?_)
  refine List.forall_mem_map.2 fun t ht => List.forall_mem_map.2 fun u hu => ?_
  exact explainsMore_of_strongerFirst topic c lex (mem_contributors.1 ht).2.2 (mem_contributors.1 hu).2.2

/-- The labeler chooses the first of the ranked contributors, in whatever order it reads its table. -/
theorem chosen_eq_take {es : List (TermId × α)} (h : es.Perm (contributions topic c).entries) (limit : Nat) :
    chosen lex limit es = (rankedContributors topic c lex).take limit := by
  have hapart : Sorting.Apart (strongerFirst lex) (es.filter fun e => decide (0 < e.2)) := by
    have hkeys : (es.map Prod.fst).Nodup := (h.map Prod.fst).nodup_iff.2 (contributions topic c).ascending.nodup
    exact (apart_of_nodup lex hkeys).filter _
  rw [chosen, Sorting.sort_eq_of_perm hapart (h.filter _), positive_contributions, rankedContributors, List.map_take]

theorem bestLabels_take (limit : Nat) :
    BestLabels topic c lex limit ((rankedContributors topic c lex).take limit) where
  nodup := (nodup_rankedContributors topic c lex).sublist (List.take_sublist limit _)
  length := by rw [List.length_take, (perm_rankedContributors topic c lex).length_eq]
  positive := by
    intro t ht
    exact (mem_contributors.1 ((perm_rankedContributors topic c lex).mem_iff.1 (List.mem_of_mem_take ht))).2.2
  known := by
    intro hne t ht
    have hadmits := (mem_contributors.1 ((perm_rankedContributors topic c lex).mem_iff.1 (List.mem_of_mem_take ht))).2.1
    rw [admits_of_ne_nil hne, List.contains_iff_mem] at hadmits
    exact hadmits
  ordered := (pairwise_rankedContributors topic c lex).sublist (List.take_sublist limit _)
  best := by
    intro t ht u hu hout
    have hpairs := pairwise_rankedContributors topic c lex
    have hmem := (perm_rankedContributors topic c lex).mem_iff.2 hu
    rw [← List.take_append_drop limit (rankedContributors topic c lex)] at hpairs hmem
    exact (List.pairwise_append.1 hpairs).2.2 t ht u ((List.mem_append.1 hmem).resolve_left hout)

/-- What is positive in the table of contributions over binary64 are the contributors with what they contribute. The labels
are the best ones among these, and the same ones are chosen in whatever order the table is read. -/
theorem labels_explain_most (topic : Topic Float) (c : Corpus Float) (lex : Lexicon) (limit : Nat) :
    ((contributions topic c).entries.filter fun e => decide (0 < e.2)) =
        ((contributors topic c).map fun t => (t, contributionOf topic c t)) ∧
      BestLabels topic c lex limit (byCohesion topic c lex limit) ∧
      ∀ es : List (TermId × Float), es.Perm (contributions topic c).entries →
        chosen lex limit es = byCohesion topic c lex limit := by
  have hlabels : byCohesion topic c lex limit = (rankedContributors topic c lex).take limit :=
    chosen_eq_take topic c lex (List.Perm.refl _) limit
  rw [hlabels]
  exact ⟨positive_contributions topic c, bestLabels_take topic c lex limit,
    fun es h => chosen_eq_take topic c lex h limit⟩

/-- A note with three terms of equal weight. -/
def evenNote : Corpus Float := ⟨#[⟨0, .ofPairs [(0, 1), (1, 1), (2, 1)]⟩]⟩

/-- The topic of this note, open to all terms. -/
def noteTopic : Topic Float := ⟨[⟨0, 0, 1⟩], [], [], 1, 1, [], ""⟩

/-- Terms that contribute alike are chosen by their texts, also when the table is read backwards. -/
theorem labels_of_even_note :
    (contributions noteTopic evenNote).entries.reverse.Perm (contributions noteTopic evenNote).entries ∧
      chosen (.ofList ["zeta", "mid", "alpha"]) 2 (contributions noteTopic evenNote).entries.reverse = [2, 1] := by
  have hperm := List.reverse_perm (contributions noteTopic evenNote).entries
  refine ⟨hperm, ?_⟩
  rw [(labels_explain_most noteTopic evenNote (.ofList ["zeta", "mid", "alpha"]) 2).2.2 _ hperm]
  decide +kernel

end Labeler
end ToleranceClustering
