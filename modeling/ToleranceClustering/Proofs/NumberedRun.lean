import ToleranceClustering.Proofs.ClusterRun
import ToleranceClustering.Proofs.RenumberedRun

/-!
# What a run takes from the lexicon

Of the lexicon a run uses the numbers of its documents' terms, and the texts under these numbers; of a document it uses
how often it has each term. Two runs on the same bags of terms whose numbers correspond by a renumbering therefore have
corresponding results (`cluster_of_numbers`).
-/

namespace ToleranceClustering

/-! ## Tallies -/

namespace Table

/-- A table has its keys with their values. -/
theorem entries_eq {β : Type} (t : Table β) : t.entries = t.keys.filterMap fun k => (t.find? k).map (Prod.mk k) := by
  have hvalues : ∀ e ∈ t.entries, (t.find? e.1).map (Prod.mk e.1) = some e := by
    intro e he
    rw [find?_of_mem t he, Option.map_some]
  rw [keys, List.filterMap_map]
  exact ((List.filterMap_congr hvalues).trans List.filterMap_some).symm

/-- Tables that have the same values are the same. -/
theorem eq_of_find?_eq {β : Type} {t u : Table β} (h : ∀ k, t.find? k = u.find? k) : t = u := by
  have hkeys : t.keys = u.keys := by
    refine t.ascending.ext u.ascending ?_
    intro k
    exact (isSome_find?_iff t k).symm.trans (h k ▸ isSome_find?_iff u k)
  refine ext ?_
  rw [entries_eq t, entries_eq u, hkeys]
  simp only [h]

end Table

namespace Tally

theorem renumber_addAll (ρ : ℕ ↪o ℕ) (ks : List ℕ) (t : Tally) :
    Table.renumber ρ (t.addAll ks) = addAll (t.renumber ρ) (ks.map ρ) := by
  induction ks generalizing t with
  | nil => rfl
  | cons k ks ih =>
    have hcons : t.addAll (k :: ks) = (t.add k).addAll ks := rfl
    rw [hcons, ih, add, Table.renumber_alter]
    rfl

theorem count_renumber (ρ : ℕ ↪o ℕ) (t : Tally) (k : ℕ) : count (t.renumber ρ) (ρ k) = t.count k := by
  unfold count
  rw [Table.find?_renumber]

/-- What a tally has at a number. -/
theorem find?_tally (ks : List ℕ) (k : ℕ) : (empty.addAll ks).find? k = if k ∈ ks then some (ks.count k) else none := by
  have hcount := count_tally ks k
  unfold count at hcount
  have hkeys := mem_keys_tally ks k
  rw [← Table.isSome_find?_iff] at hkeys
  cases hf : (empty.addAll ks).find? k with
  | none =>
    rw [hf] at hkeys
    have hmem : k ∉ ks := by
      intro hmem
      cases hkeys.2 hmem
    rw [if_neg hmem]
  | some n =>
    rw [hf] at hkeys hcount
    rw [if_pos (hkeys.1 rfl), ← hcount]
    rfl

/-- The order in which numbers are counted does not matter. -/
theorem addAll_perm {ks js : List ℕ} (h : ks.Perm js) : empty.addAll ks = empty.addAll js := by
  refine Table.eq_of_find?_eq ?_
  intro k
  rw [find?_tally, find?_tally, h.count_eq]
  simp only [h.mem_iff]

end Tally

/-! ## Corpora -/

/-- A vector has only terms that it was built from. -/
theorem TermVector.mem_fst_of_contains {α : Type} [Scalar α] {pairs : List (ℕ × α)} {t : TermId}
    (h : (ofPairs pairs).contains t = true) : t ∈ pairs.map Prod.fst := by
  rw [contains, weight?_ofPairs, Option.isSome_iff_exists] at h
  obtain ⟨w, hw⟩ := h
  by_contra hnone
  have hnil : pairs.filter (fun p => p.1 = t) = [] := by
    refine List.filter_eq_nil_iff.2 ?_
    intro p hp ht
    exact hnone (of_decide_eq_true ht ▸ List.mem_map_of_mem hp)
  rw [summed, hnil] at hw
  cases hw

/-- Documents with the same id and the same bag of terms. -/
def Document.SameBag (d d' : Document) : Prop := d.id = d'.id ∧ d.terms.Perm d'.terms

namespace Extraction

variable {α : Type} [Scalar α] (e : Extraction α)

/-- The tally of a document under some numbering of the terms. -/
def tallyBy (number : String → TermId) (d : Document) : Tally := Tally.empty.addAll (d.terms.map number)

/-- The corpus of some documents under some numbering of their terms. -/
def corpusBy (number : String → TermId) (docs : List Document) : Corpus α :=
  ⟨(docs.map fun d => ⟨d.id, TermVector.ofPairs ((tallyBy number d).entries.filterMap
    (e.weigh docs.length (countDocuments (docs.map (tallyBy number)))))⟩).toArray⟩

theorem extract_eq_corpusBy (lex : Lexicon) (docs : List Document) :
    extract e lex docs = (e.corpusBy (lexiconAfter lex docs).number docs, lexiconAfter lex docs) :=
  extract_eq e lex docs

theorem renumber_countDocuments (ρ : ℕ ↪o ℕ) (counts : List Tally) :
    (countDocuments counts).renumber ρ = countDocuments (counts.map (Table.renumber ρ)) := by
  have hfold : ∀ (counts : List Tally) (df : Tally),
      (counts.foldl (fun df c => Tally.addAll df c.keys) df).renumber ρ =
        (counts.map (Table.renumber ρ)).foldl (fun df c => Tally.addAll df c.keys) (df.renumber ρ) := by
    intro counts
    induction counts with
    | nil => intro df; rfl
    | cons c cs ih =>
      intro df
      rw [List.foldl_cons, ih, Tally.renumber_addAll, List.map_cons, List.foldl_cons, Table.keys_renumber]
  exact hfold counts Tally.empty

theorem weigh_renumber (ρ : ℕ ↪o ℕ) (n : ℕ) (df : Tally) (entry : TermId × ℕ) :
    e.weigh n (df.renumber ρ) (Table.renumberEntry ρ entry) = (e.weigh n df entry).map (Table.renumberEntry ρ) := by
  unfold weigh Table.renumberEntry
  simp only [Tally.count_renumber]
  split <;> rfl

/-- Numbers that correspond by a renumbering give corpora that do. -/
theorem corpusBy_renumber (ρ : ℕ ↪o ℕ) {number number' : String → TermId} {docs : List Document}
    (h : ∀ d ∈ docs, ∀ t ∈ d.terms, number' t = ρ (number t)) :
    e.corpusBy number' docs = (e.corpusBy number docs).renumber ρ := by
  have htally : ∀ d ∈ docs, tallyBy number' d = (tallyBy number d).renumber ρ := by
    intro d hd
    have hterms : d.terms.map number' = (d.terms.map number).map ρ := by
      rw [List.map_map]
      exact List.map_congr_left fun t ht => h d hd t ht
    unfold tallyBy
    rw [hterms, Tally.renumber_addAll]
    rfl
  have hcounts : docs.map (tallyBy number') = (docs.map (tallyBy number)).map (Table.renumber ρ) := by
    rw [List.map_map]
    exact List.map_congr_left htally
  unfold corpusBy Corpus.renumber
  rw [hcounts, ← renumber_countDocuments, List.map_toArray, List.map_map]
  refine congrArg (fun ds : List (IndexedDocument α) => (⟨ds.toArray⟩ : Corpus α)) (List.map_congr_left ?_)
  intro d hd
  rw [Function.comp_apply, htally d hd, TermVector.renumber_ofPairs]
  simp only [Table.renumber, List.filterMap_map, List.map_filterMap]
  refine congrArg (fun f =>
    (⟨d.id, TermVector.ofPairs ((tallyBy number d).entries.filterMap f)⟩ : IndexedDocument α)) ?_
  funext entry
  exact e.weigh_renumber ρ _ _ entry

/-- Of each document only its id and its bag of terms count. -/
theorem corpusBy_congr (number : String → TermId) {docs docs' : List Document}
    (h : List.Forall₂ Document.SameBag docs docs') : e.corpusBy number docs = e.corpusBy number docs' := by
  have htally : ∀ {d d' : Document}, d.SameBag d' → tallyBy number d = tallyBy number d' :=
    fun hd => Tally.addAll_perm (hd.2.map number)
  have hcounts : docs.map (tallyBy number) = docs'.map (tallyBy number) := by
    induction h with
    | nil => rfl
    | cons hd _ ih => rw [List.map_cons, List.map_cons, htally hd, ih]
  unfold corpusBy
  rw [hcounts, h.length_eq]
  generalize e.weigh docs'.length (countDocuments (docs'.map (tallyBy number))) = weigh
  refine congrArg (fun ds : List (IndexedDocument α) => (⟨ds.toArray⟩ : Corpus α)) ?_
  clear hcounts
  induction h with
  | nil => rfl
  | cons hd _ ih => rw [List.map_cons, List.map_cons, htally hd, hd.1, ih]

theorem fst_of_weigh {n : ℕ} {df : Tally} {entry : TermId × ℕ} {p : TermId × α} (h : e.weigh n df entry = some p) :
    p.1 = entry.1 := by
  simp only [weigh] at h
  split at h
  · cases h
  · exact congrArg Prod.fst (Option.some.inj h).symm

/-- The terms of the corpus are numbers of terms of its documents. -/
theorem exists_of_mem_vocabulary {number : String → TermId} {docs : List Document} {i : TermId}
    (h : i ∈ (e.corpusBy number docs).vocabulary) : ∃ d ∈ docs, ∃ t ∈ d.terms, number t = i := by
  obtain ⟨pos, -, hpos⟩ := (Corpus.mem_vocabulary _).1 h
  unfold Corpus.vector corpusBy at hpos
  simp only [List.getElem?_toArray, List.getElem?_map] at hpos
  cases hd : docs[pos]? with
  | none =>
    rw [hd] at hpos
    cases hpos
  | some d =>
    simp only [hd, Option.map_some, Option.getD_some] at hpos
    have hkey := (map_fst_filterMap_sublist (fun _ _ => e.fst_of_weigh) _).subset
      (TermVector.mem_fst_of_contains hpos)
    obtain ⟨t, ht, htn⟩ := List.mem_map.1 ((Tally.mem_keys_tally _ _).1 hkey)
    exact ⟨d, List.mem_of_getElem? hd, t, ht, htn⟩

end Extraction

/-! ## Runs -/

theorem Lexicon.term?_number {lex : Lexicon} {t : String} (h : t ∈ lex.terms) : lex.term? (lex.number t) = some t := by
  unfold term? number
  rw [List.getElem?_eq_getElem (List.idxOf_lt_length_of_mem h), List.getElem_idxOf]

namespace Clusterer

variable {α : Type} [Scalar α] (k : Clusterer α) {lex lex' : Lexicon} {docs docs' : List Document}

/-- A run leaves the lexicon with its documents' terms, whether it is cancelled or not. -/
theorem lexicon_cluster (lex : Lexicon) (docs : List Document) (cancelled : Bool) :
    (k.cluster lex docs cancelled).2 = Extraction.lexiconAfter lex docs := by
  unfold cluster
  cases docs with
  | nil => rfl
  | cons d ds =>
    simp only [List.isEmpty_cons, Bool.false_eq_true, if_false, Extraction.extract_eq_corpusBy]
    split
    · rfl
    · split <;> rfl

/-- Two runs on the same bags of terms, the numbers of which correspond, return what corresponds. -/
theorem cluster_of_numbers (hk : k.labeler = Labeler.byCohesion) (ρ : ℕ ↪o ℕ)
    (hbags : List.Forall₂ Document.SameBag docs docs')
    (hnumbers : ∀ d ∈ docs, ∀ t ∈ d.terms,
      (Extraction.lexiconAfter lex' docs').number t = ρ ((Extraction.lexiconAfter lex docs).number t))
    (hterms : ∀ d ∈ docs, ∀ t ∈ d.terms, t ∈ (Extraction.lexiconAfter lex' docs').terms) :
    ∃ r, (k.cluster lex docs false).1 = .ok r ∧ (k.cluster lex' docs' false).1 = .ok (renumberClustering ρ r) := by
  obtain ⟨s, hs⟩ := k.exists_space lex docs
  have hcorpus : k.corpusOf lex' docs' = (k.corpusOf lex docs).renumber ρ := by
    unfold corpusOf
    rw [Extraction.extract_eq_corpusBy, Extraction.extract_eq_corpusBy, ← Extraction.corpusBy_congr _ _ hbags]
    exact Extraction.corpusBy_renumber _ ρ hnumbers
  have hs' : k.IsSpaceOf lex' docs' (s.renumber ρ) := by
    unfold IsSpaceOf
    rw [hcorpus]
    exact ToleranceSpace.build_renumber ρ hs
  refine ⟨_, k.cluster_eq lex docs hs, ?_⟩
  rw [k.cluster_eq lex' docs' hs', hcorpus]
  refine congrArg Except.ok (clusterCorpus_renumber ρ hk hs ?_)
  rw [Extraction.extract_eq_corpusBy, Extraction.extract_eq_corpusBy]
  intro i hi
  rw [corpusOf, Extraction.extract_eq_corpusBy] at hi
  obtain ⟨d, hd, t, ht, rfl⟩ := Extraction.exists_of_mem_vocabulary _ hi
  rw [← hnumbers d hd t ht, Lexicon.term?_number (hterms d hd t ht),
    Lexicon.term?_number (Extraction.mem_lexiconAfter hd ht)]

end Clusterer

end ToleranceClustering
