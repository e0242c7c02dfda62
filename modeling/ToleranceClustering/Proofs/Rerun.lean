import ToleranceClustering.Proofs.NumberedRun

/-!
# Running again

After a run all terms of its documents are in the lexicon for good, so a later run on the same bags of terms meets the
same numbers, whatever was interned in between, and returns the same result without adding a term
(`rerun_returns_same`).
-/

namespace ToleranceClustering

namespace Lexicon

theorem intern_of_known {lex : Lexicon} {term : String} (h : term ∈ lex.terms) : (lex.intern term).2 = lex := by
  rw [intern_of_mem h]

/-- Terms that are known already leave the lexicon as it is. -/
theorem internAll_of_known {lex : Lexicon} {terms : List String} (h : ∀ t ∈ terms, t ∈ lex.terms) :
    (lex.internAll terms).2 = lex := by
  induction terms with
  | nil => rfl
  | cons t ts ih =>
    obtain ⟨ht, hts⟩ := List.forall_mem_cons.1 h
    have hall : (lex.internAll (t :: ts)).2 = ((lex.intern t).2.internAll ts).2 := rfl
    rw [hall, intern_of_known ht, ih hts]

end Lexicon

/-- Documents with known terms only leave the lexicon as it is. -/
theorem Extraction.lexiconAfter_of_known {lex : Lexicon} {docs : List Document}
    (h : ∀ d ∈ docs, ∀ t ∈ d.terms, t ∈ lex.terms) : lexiconAfter lex docs = lex := by
  induction docs with
  | nil => rfl
  | cons d ds ih =>
    obtain ⟨hd, hds⟩ := List.forall_mem_cons.1 h
    have hall : lexiconAfter lex (d :: ds) = lexiconAfter (lex.internAll d.terms).2 ds := rfl
    rw [hall, Lexicon.internAll_of_known hd, ih hds]

namespace Clusterer

/-- The same numbers, as a renumbering. -/
abbrev sameNumbers : ℕ ↪o ℕ := RelEmbedding.refl _

theorem renumberClustering_same {α : Type} (r : Clustering α) : renumberClustering sameNumbers r = r := by
  have htopic : ∀ t : Topic α, t.renumber sameNumbers = t := by
    intro t
    have hmap : ∀ ts : List TermId, ts.map sameNumbers = ts := List.map_id
    unfold Topic.renumber
    rw [hmap, hmap, hmap]
  have htopics : r.topics.map (Topic.renumber sameNumbers) = r.topics :=
    (List.map_congr_left fun t _ => htopic t).trans (List.map_id _)
  unfold renumberClustering
  rw [htopics]

variable {α : Type} [Scalar α]

/-- What a lexicon may come to: terms are interned, and other runs are made. -/
inductive Used (α : Type) [Scalar α] (lex : Lexicon) : Lexicon → Prop where
  | refl : Used α lex lex
  | intern {later : Lexicon} (term : String) : Used α lex later → Used α lex (later.intern term).2
  | run {later : Lexicon} (k : Clusterer α) (docs : List Document) (cancelled : Bool) :
      Used α lex later → Used α lex (k.cluster later docs cancelled).2

/-- A lexicon only grows. -/
theorem Used.extends {lex later : Lexicon} (h : Used α lex later) : lex.Extends later := by
  induction h with
  | refl => exact Lexicon.Extends.refl lex
  | intern term _ ih => exact ih.trans (Lexicon.intern_spec _ term).1
  | run k docs cancelled _ ih =>
    rw [lexicon_cluster]
    exact ih.trans (Extraction.countTerms_spec _ docs).1

/-- Documents with the same bags have the same terms. -/
theorem exists_of_sameBags {docs docs' : List Document} (h : List.Forall₂ Document.SameBag docs docs') {d' : Document}
    (hd : d' ∈ docs') : ∃ d ∈ docs, ∀ t ∈ d'.terms, t ∈ d.terms := by
  induction h with
  | nil => cases hd
  | cons hbag _ ih =>
    obtain rfl | hd := List.mem_cons.1 hd
    · exact ⟨_, List.mem_cons_self, fun t ht => hbag.2.mem_iff.2 ht⟩
    · obtain ⟨d, hd, hterms⟩ := ih hd
      exact ⟨d, List.mem_cons_of_mem _ hd, hterms⟩

/-- A run on the same bags of terms, at any later time, returns what the first run did, and adds no term. -/
theorem rerun_returns_same {k : Clusterer α} (hk : k.labeler = Labeler.byCohesion) {lex later : Lexicon}
    {docs docs' : List Document} (hbags : List.Forall₂ Document.SameBag docs docs')
    (hused : Used α (k.cluster lex docs false).2 later) :
    ∃ r, (k.cluster lex docs false).1 = .ok r ∧ k.cluster later docs' false = (.ok r, later) := by
  rw [lexicon_cluster] at hused
  have hext := hused.extends
  have hknown : ∀ d ∈ docs, ∀ t ∈ d.terms, t ∈ (Extraction.lexiconAfter lex docs).terms :=
    fun d hd t ht => Extraction.mem_lexiconAfter hd ht
  have hlater : Extraction.lexiconAfter later docs' = later := by
    refine Extraction.lexiconAfter_of_known ?_
    intro d' hd' t ht
    obtain ⟨d, hd, hterms⟩ := exists_of_sameBags hbags hd'
    exact hext.mem (hknown d hd t (hterms t ht))
  have hnumbers : ∀ d ∈ docs, ∀ t ∈ d.terms, (Extraction.lexiconAfter later docs').number t =
      sameNumbers ((Extraction.lexiconAfter lex docs).number t) := by
    intro d hd t ht
    rw [hlater]
    exact hext.number_eq (hknown d hd t ht)
  have hterms : ∀ d ∈ docs, ∀ t ∈ d.terms, t ∈ (Extraction.lexiconAfter later docs').terms := by
    intro d hd t ht
    rw [hlater]
    exact hext.mem (hknown d hd t ht)
  obtain ⟨r, hfirst, hagain⟩ := k.cluster_of_numbers hk sameNumbers hbags hnumbers hterms
  rw [renumberClustering_same] at hagain
  refine ⟨r, hfirst, Prod.ext hagain ?_⟩
  exact (k.lexicon_cluster later docs' false).trans hlater

/-- The usual settings with the labels of the library. -/
def usual : Clusterer Float := ⟨Settings.standard, by decide +kernel, Labeler.byCohesion⟩

/-- Two recipes. -/
def recipes : List Document := [⟨0, ["apple", "pie", "apple"], none⟩, ⟨1, ["pie", "plum"], none⟩]

/-- The recipes in other words of the same kind. -/
def shuffledRecipes : List Document := [⟨0, ["", "pie", "apple", "apple"], none⟩, ⟨1, ["plum", "pie", ""], none⟩]

/-- The lexicon after the recipes, and then a cancelled run on something else and one more term. -/
def laterLexicon : Lexicon :=
  ((usual.cluster (usual.cluster Lexicon.empty recipes false).2 [⟨0, ["zebra"], none⟩] true).2.intern "yak").2

theorem recipes_return_same :
    List.Forall₂ Document.SameBag recipes shuffledRecipes ∧
      ∃ r, (usual.cluster Lexicon.empty recipes false).1 = .ok r ∧
        usual.cluster laterLexicon shuffledRecipes false = (.ok r, laterLexicon) := by
  have hbags : List.Forall₂ Document.SameBag recipes shuffledRecipes :=
    List.Forall₂.cons ⟨rfl, by decide⟩ (List.Forall₂.cons ⟨rfl, by decide⟩ List.Forall₂.nil)
  have hused : Used Float (usual.cluster Lexicon.empty recipes false).2 laterLexicon :=
    (Used.refl.run usual [⟨0, ["zebra"], none⟩] true).intern "yak"
  exact ⟨hbags, rerun_returns_same rfl hbags hused⟩

end Clusterer

end ToleranceClustering
