import ToleranceClustering.Proofs.Rerun

/-!
# What the lexicon decides

Terms that weigh the same are told apart by their numbers, so a run on documents whose terms were interned before, in
another order, may come to other topics (`lexicon_decides_between_equals`). The order of the documents' terms is all
that counts: where two lexicons put them in the same order, with whatever terms between them, the runs agree in
everything but the numbers (`cluster_eq_of_same_order`).

For the proof both runs are compared with a third one, on the lexicon that has nothing but the documents' terms, in
their common order (`Lexicon.restrict`).
-/

namespace ToleranceClustering

namespace Lexicon

/-- The lexicon with only some of its terms, in their order. -/
def restrict (lex : Lexicon) (keep : String → Bool) : Lexicon := ⟨lex.terms.filter keep, lex.nodup.filter keep⟩

/-- The numbers of the terms that a restriction keeps, in their order. -/
def keptNumbers (lex : Lexicon) (keep : String → Bool) : List TermId := (lex.restrict keep).terms.map lex.number

theorem ascending_keptNumbers (lex : Lexicon) (keep : String → Bool) : Ascending (lex.keptNumbers keep) := by
  have hall : lex.terms.Pairwise fun a b => lex.number a < lex.number b := by
    rw [List.pairwise_iff_getElem]
    intro i j hi hj hij
    unfold number
    rw [lex.nodup.idxOf_getElem i hi, lex.nodup.idxOf_getElem j hj]
    exact hij
  exact List.pairwise_map.2 (hall.sublist List.filter_sublist)

theorem lt_size_of_mem_keptNumbers {lex : Lexicon} {keep : String → Bool} {i : TermId} (h : i ∈ lex.keptNumbers keep) :
    i < lex.size := by
  obtain ⟨t, ht, rfl⟩ := List.mem_map.1 h
  exact List.idxOf_lt_length_of_mem (List.mem_filter.1 ht).1

/-- The numbers of the restriction become those of the lexicon; what no term has goes behind them. -/
def expand (lex : Lexicon) (keep : String → Bool) (i : ℕ) : ℕ := (lex.keptNumbers keep)[i]?.getD (lex.size + i)

theorem strictMono_expand (lex : Lexicon) (keep : String → Bool) : StrictMono (lex.expand keep) := by
  intro i j hij
  unfold expand
  by_cases hj : j < (lex.keptNumbers keep).length
  · have hi : i < (lex.keptNumbers keep).length := Nat.lt_trans hij hj
    rw [List.getElem?_eq_getElem hi, List.getElem?_eq_getElem hj]
    exact List.pairwise_iff_getElem.1 (lex.ascending_keptNumbers keep) i j hi hj hij
  · rw [List.getElem?_eq_none (Nat.le_of_not_lt hj), Option.getD_none]
    by_cases hi : i < (lex.keptNumbers keep).length
    · rw [List.getElem?_eq_getElem hi, Option.getD_some]
      exact Nat.lt_add_right j (lt_size_of_mem_keptNumbers (List.getElem_mem hi))
    · rw [List.getElem?_eq_none (Nat.le_of_not_lt hi), Option.getD_none]
      exact Nat.add_lt_add_left hij lex.size

/-- The renumbering from a restriction to the lexicon. -/
def expansion (lex : Lexicon) (keep : String → Bool) : ℕ ↪o ℕ :=
  OrderEmbedding.ofStrictMono _ (lex.strictMono_expand keep)

theorem expansion_number {lex : Lexicon} {keep : String → Bool} {t : String} (ht : t ∈ (lex.restrict keep).terms) :
    lex.expansion keep ((lex.restrict keep).number t) = lex.number t := by
  have hlt := List.idxOf_lt_length_of_mem ht
  have hget : (lex.keptNumbers keep)[(lex.restrict keep).number t]? = some (lex.number t) := by
    unfold keptNumbers number
    rw [List.getElem?_map, List.getElem?_eq_getElem hlt, List.getElem_idxOf, Option.map_some]
  have happly : ∀ i, lex.expansion keep i = lex.expand keep i := fun _ => rfl
  rw [happly, expand, hget, Option.getD_some]

end Lexicon

/-- Whether a term occurs in some documents. -/
def occursIn (docs : List Document) (t : String) : Bool := docs.any fun d => d.terms.contains t

theorem occursIn_of_mem {docs : List Document} {d : Document} (hd : d ∈ docs) {t : String} (ht : t ∈ d.terms) :
    occursIn docs t = true :=
  List.any_eq_true.2 ⟨d, hd, List.contains_iff_mem.2 ht⟩

/-- The terms of some documents in the order of the numbers they have after a run. -/
def termOrder (lex : Lexicon) (docs : List Document) : List String :=
  (Extraction.lexiconAfter lex docs).terms.filter (occursIn docs)

namespace Clusterer

/-- The result without the numbers of terms: members, figures, label texts, the rest and the merges. -/
def withoutNumbers {α : Type} (r : Clustering α) : Clustering α :=
  { r with topics := r.topics.map fun t => { t with seeds := [], terms := [], labels := [] } }

theorem withoutNumbers_renumber {α : Type} (ρ : ℕ ↪o ℕ) (r : Clustering α) :
    withoutNumbers (renumberClustering ρ r) = withoutNumbers r := by
  unfold withoutNumbers renumberClustering
  simp only [List.map_map]
  rfl

variable {α : Type} [Scalar α] {k : Clusterer α}

/-- A run agrees, but for the numbers, with one on the lexicon of its documents' terms alone. -/
theorem cluster_eq_restricted (hk : k.labeler = Labeler.byCohesion) (lex : Lexicon) (docs : List Document) :
    ∃ r r', (k.cluster lex docs false).1 = .ok r ∧
      (k.cluster ((Extraction.lexiconAfter lex docs).restrict (occursIn docs)) docs false).1 = .ok r' ∧
      withoutNumbers r = withoutNumbers r' := by
  have hkept : ∀ d ∈ docs, ∀ t ∈ d.terms, t ∈ ((Extraction.lexiconAfter lex docs).restrict (occursIn docs)).terms :=
    fun d hd t ht => List.mem_filter.2 ⟨Extraction.mem_lexiconAfter hd ht, occursIn_of_mem hd ht⟩
  have hbags : List.Forall₂ Document.SameBag docs docs := List.forall₂_same.2 fun d _ => ⟨rfl, List.Perm.refl _⟩
  have hnumbers : ∀ d ∈ docs, ∀ t ∈ d.terms, (Extraction.lexiconAfter lex docs).number t =
      (Extraction.lexiconAfter lex docs).expansion (occursIn docs) ((Extraction.lexiconAfter
        ((Extraction.lexiconAfter lex docs).restrict (occursIn docs)) docs).number t) := by
    intro d hd t ht
    rw [Extraction.lexiconAfter_of_known hkept, Lexicon.expansion_number (hkept d hd t ht)]
  have hterms : ∀ d ∈ docs, ∀ t ∈ d.terms, t ∈ (Extraction.lexiconAfter lex docs).terms :=
    fun d hd t ht => Extraction.mem_lexiconAfter hd ht
  obtain ⟨r, hrestricted, hfull⟩ := k.cluster_of_numbers hk _ hbags hnumbers hterms
  exact ⟨_, r, hfull, hrestricted, withoutNumbers_renumber _ r⟩

/-- Where two lexicons put the terms of the documents in the same order, the runs agree in everything but the
numbers. -/
theorem cluster_eq_of_same_order (hk : k.labeler = Labeler.byCohesion) {lex lex' : Lexicon} {docs : List Document}
    (h : termOrder lex docs = termOrder lex' docs) :
    ∃ r r', (k.cluster lex docs false).1 = .ok r ∧ (k.cluster lex' docs false).1 = .ok r' ∧
      withoutNumbers r = withoutNumbers r' := by
  have hrestrict : (Extraction.lexiconAfter lex docs).restrict (occursIn docs) =
      (Extraction.lexiconAfter lex' docs).restrict (occursIn docs) := by
    unfold Lexicon.restrict
    congr 1
  obtain ⟨r, s, hr, hs, hrs⟩ := cluster_eq_restricted hk lex docs
  obtain ⟨r', s', hr', hs', hrs'⟩ := cluster_eq_restricted hk lex' docs
  rw [hrestrict, hs'] at hs
  obtain rfl := Except.ok.inj hs
  exact ⟨r, r', hr, hr', hrs.trans hrs'.symm⟩

/-- Two documents about apples and two about bread. -/
def groceries : List Document :=
  [⟨0, ["apple"], none⟩, ⟨1, ["apple"], none⟩, ⟨2, ["bread"], none⟩, ⟨3, ["bread"], none⟩]

/-- Other terms before the documents' make no difference. -/
theorem groceries_same_order :
    termOrder (Lexicon.ofList ["zebra"]) groceries = termOrder (Lexicon.ofList ["yak", "apple", "ant"]) groceries ∧
      ∃ r r', (usual.cluster (Lexicon.ofList ["zebra"]) groceries false).1 = .ok r ∧
        (usual.cluster (Lexicon.ofList ["yak", "apple", "ant"]) groceries false).1 = .ok r' ∧
        withoutNumbers r = withoutNumbers r' := by
  have h : termOrder (Lexicon.ofList ["zebra"]) groceries =
      termOrder (Lexicon.ofList ["yak", "apple", "ant"]) groceries := by
    decide
  exact ⟨h, cluster_eq_of_same_order rfl h⟩

/-- The usual settings with one seed. -/
def oneSeed : Clusterer Float :=
  ⟨{ Settings.standard with seeds := { Settings.standardSeeds with limit := some 1 } }, by decide +kernel,
    Labeler.byCohesion⟩

/-- The positions of the topics, and those of the rest. -/
def placement {α : Type} (r : Clustering α) : List (List Position) × List Position :=
  (r.topics.map Topic.positions, r.rest.positions)

/-- Apples and bread weigh the same, and the one interned first becomes the topic. -/
theorem lexicon_decides_between_equals :
    (oneSeed.cluster Lexicon.empty groceries false).1.map placement = .ok ([[0, 1]], [2, 3]) ∧
      (oneSeed.cluster (Lexicon.ofList ["bread"]) groceries false).1.map placement = .ok ([[2, 3]], [0, 1]) := by
  decide +kernel

end Clusterer

end ToleranceClustering
