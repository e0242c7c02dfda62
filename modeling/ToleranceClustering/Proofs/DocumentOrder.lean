import Mathlib.Logic.Equiv.Basic
import ToleranceClustering.Proofs.RelocatedRun
import ToleranceClustering.Proofs.Rerun

/-!
# The order of the documents

With a lexicon that knows all terms, and all eligible terms for seeds, it does not matter to a run in which order the
documents come. Their positions are renamed, but the merges are the same step by step, and so are the topics and the rest
(`reordering_renames_positions`). Only what is added up over the documents of a topic may be rounded differently, so the
topics may be ranked and labelled in another way.
-/

namespace ToleranceClustering

/-! ## Reordered documents -/

/-- The document at `pos` has gone to `σ pos`. -/
def Reorders (σ : Equiv.Perm ℕ) (docs docs' : List Document) : Prop := ∀ pos, docs'[σ pos]? = docs[pos]?

/-- The first place stays, and the places behind it go as `σ` says. -/
def behindFirst (σ : Equiv.Perm ℕ) : Equiv.Perm ℕ where
  toFun
    | 0 => 0
    | pos + 1 => σ pos + 1
  invFun
    | 0 => 0
    | pos + 1 => σ.symm pos + 1
  left_inv := by rintro (_ | pos) <;> simp
  right_inv := by rintro (_ | pos) <;> simp

theorem Reorders.cons {σ : Equiv.Perm ℕ} {docs docs' : List Document} (h : Reorders σ docs docs') (d : Document) :
    Reorders (behindFirst σ) (d :: docs) (d :: docs') := by
  rintro (_ | pos)
  · rfl
  · exact h pos

/-- The documents of a permuted list have gone to other places. -/
theorem exists_reorders {docs docs' : List Document} (h : docs.Perm docs') : ∃ σ, Reorders σ docs docs' := by
  induction h with
  | nil => exact ⟨Equiv.refl ℕ, fun _ => rfl⟩
  | cons d _ ih =>
    obtain ⟨σ, hσ⟩ := ih
    exact ⟨behindFirst σ, hσ.cons d⟩
  | swap d e ds =>
    refine ⟨Equiv.swap 0 1, ?_⟩
    rintro (_ | _ | pos)
    · rfl
    · rfl
    · rw [Equiv.swap_apply_of_ne_of_ne (by omega) (by omega)]
      rfl
  | trans _ _ ih ih' =>
    obtain ⟨σ, hσ⟩ := ih
    obtain ⟨ρ, hρ⟩ := ih'
    exact ⟨σ.trans ρ, fun pos => (hρ (σ pos)).trans (hσ pos)⟩

/-- Every place of the reordered list is one to which a document has gone. -/
theorem Reorders.exists_place {σ : Equiv.Perm ℕ} {docs docs' : List Document} (h : Reorders σ docs docs') {pos : ℕ}
    (hpos : pos < docs'.length) : ∃ p < docs.length, σ p = pos := by
  have hplace := h (σ.symm pos)
  rw [σ.apply_symm_apply, List.getElem?_eq_getElem hpos] at hplace
  exact ⟨σ.symm pos, (List.getElem?_eq_some_iff.1 hplace.symm).1, σ.apply_symm_apply pos⟩

theorem Reorders.relocated {σ : Equiv.Perm ℕ} {docs docs' : List Document} (h : Reorders σ docs docs') :
    Relocated σ.toEmbedding docs docs' where
  kept pos _ := h pos
  blank _ _ hd := Or.inl (h.exists_place (List.getElem?_eq_some_iff.1 hd).1)

/-! ## Weighted terms -/

/-- The weighted terms of a document do not depend on the order of its batch, once the terms are numbered alike. -/
theorem Extraction.pairsOf_perm {α : Type} [Scalar α] (e : Extraction α) {lex : Lexicon} {docs docs' : List Document}
    (hperm : docs.Perm docs') (hlex : lexiconAfter lex docs' = lexiconAfter lex docs) (d : Document) :
    pairsOf e lex docs' d = pairsOf e lex docs d := by
  unfold pairsOf
  rw [hlex]
  refine List.filterMap_congr ?_
  intro entry _
  unfold weigh
  rw [count_countDocuments, count_countDocuments, (hperm.map _).countP_eq, hperm.length_eq]

/-! ## A run -/

theorem Member.move_injective {α : Type} (σ : ℕ ↪ ℕ) : Function.Injective (Member.move σ (α := α)) := by
  rintro ⟨d, pos, m⟩ ⟨d', pos', m'⟩ he
  simp only [Member.move, Member.mk.injEq] at he ⊢
  exact ⟨he.1, σ.injective he.2.1, he.2.2⟩

namespace Clusterer

variable {α : Type} [Scalar α]

/-- No document is left over twice. -/
theorem nodup_uncovered (c : Corpus α) (topics : List (Topic α)) : (uncovered c topics).Nodup :=
  List.Nodup.of_map Member.position (ascending_uncovered c topics).nodup

/-- Where every place is one to which a document has gone, the rest is the same at the other places. -/
theorem perm_rest [Scalar.Normal α] {σ : ℕ ↪ ℕ} {c c' : Corpus α} (hr : c.Relocated σ c') {k : Clusterer α} {τ : α}
    {f : Measure α} {s s' : ToleranceSpace α} (h : ToleranceSpace.build c τ f = .ok s)
    (h' : ToleranceSpace.build c' τ f = .ok s')
    (hseeds : s'.selectSeeds c' k.settings.seeds = s.selectSeeds c k.settings.seeds)
    (honto : ∀ pos < c'.size, ∃ p < c.size, σ p = pos) (lex lex' : Lexicon) :
    (k.clusterCorpus lex' c' s').rest.members.Perm ((k.clusterCorpus lex c s).rest.members.map (Member.move σ)) := by
  refine (List.perm_ext_iff_of_nodup (nodup_uncovered _ _)
    ((nodup_uncovered _ _).map (Member.move_injective σ))).2 ?_
  intro m
  rw [List.mem_map]
  refine (mem_rest_relocated hr h h' hseeds lex lex' m).trans (or_iff_left ?_)
  rintro ⟨hlt, hnone, -⟩
  obtain ⟨p, hp, he⟩ := honto m.position hlt
  exact hnone p hp he

/-- The corpora of reordered documents, if both batches leave the same lexicon. -/
theorem corpusOf_reordered {k : Clusterer α} {lex : Lexicon} {docs docs' : List Document} (hperm : docs.Perm docs')
    (hlex : Extraction.lexiconAfter lex docs' = Extraction.lexiconAfter lex docs) {σ : Equiv.Perm ℕ}
    (hσ : Reorders σ docs docs') :
    (k.corpusOf lex docs).Relocated σ.toEmbedding (k.corpusOf lex docs') :=
  Extraction.extract_relocated _ hσ.relocated fun d _ => Extraction.pairsOf_perm _ hperm hlex d

end Clusterer

/-- A run over binary64 on documents in another order, with a lexicon that has all their terms and no limit to the seeds,
makes the same merges and returns the same topics and the same rest, but for their positions: however the documents moved,
the topics correspond one to one, with the same seeds, terms, documents and memberships, and the documents left over are the
same, with the same memberships. -/
theorem reordering_renames_positions (k : Clusterer Float) (hlimit : k.settings.seeds.limit = none) {lex : Lexicon}
    {docs docs' : List Document} (hperm : docs.Perm docs') (hknown : ∀ d ∈ docs, ∀ t ∈ d.terms, t ∈ lex.terms) :
    ∃ r r', (k.cluster lex docs false).1 = .ok r ∧ (k.cluster lex docs' false).1 = .ok r' ∧ r'.merges = r.merges ∧
      (∃ σ, Reorders σ docs docs') ∧
      ∀ σ, Reorders σ docs docs' → Topic.AllRelocated σ.toEmbedding r.topics r'.topics ∧
        r'.rest.members.Perm (r.rest.members.map (Member.move σ.toEmbedding)) := by
  obtain ⟨s, hs⟩ := k.exists_space lex docs
  obtain ⟨s', hs'⟩ := k.exists_space lex docs'
  have hlex : Extraction.lexiconAfter lex docs' = Extraction.lexiconAfter lex docs := by
    rw [Extraction.lexiconAfter_of_known hknown, Extraction.lexiconAfter_of_known]
    exact fun d hd => hknown d (hperm.mem_iff.2 hd)
  have hsize : (k.corpusOf lex docs').size = (k.corpusOf lex docs).size := by
    rw [k.size_corpusOf, k.size_corpusOf, hperm.length_eq]
  have hcorpus : ∀ σ, Reorders σ docs docs' → (k.corpusOf lex docs).Relocated σ.toEmbedding (k.corpusOf lex docs') :=
    fun σ hσ => Clusterer.corpusOf_reordered hperm hlex hσ
  have hseeds : ∀ σ, Reorders σ docs docs' →
      s'.selectSeeds (k.corpusOf lex docs') k.settings.seeds = s.selectSeeds (k.corpusOf lex docs) k.settings.seeds := by
    intro σ hσ
    refine ToleranceSpace.selectSeeds_relocated (hcorpus σ hσ) hs hs' ?_ (Or.inl hlimit)
    intro n _
    rw [hsize]
  refine ⟨_, _, k.cluster_eq lex docs hs, k.cluster_eq lex docs' hs', ?_, exists_reorders hperm, ?_⟩
  · obtain ⟨σ, hσ⟩ := exists_reorders hperm
    exact Clusterer.merges_relocated (hcorpus σ hσ) hs hs' (hseeds σ hσ) _ _
  · intro σ hσ
    refine ⟨Clusterer.topics_relocated (hcorpus σ hσ) hs hs' (hseeds σ hσ) _ _,
      Clusterer.perm_rest (hcorpus σ hσ) hs hs' (hseeds σ hσ) ?_ _ _⟩
    intro pos hpos
    rw [k.size_corpusOf] at hpos ⊢
    exact hσ.exists_place hpos

/-- The usual settings, with every eligible term as a seed. -/
def unlimited : Clusterer Float :=
  ⟨{ Settings.standard with seeds := ⟨2, 1.0, none⟩ }, by decide +kernel, Labeler.byCohesion⟩

/-- Two notes from the seaside and two from the hills. -/
def notes : List Document :=
  [⟨0, ["sea", "salt"], none⟩, ⟨1, ["hill", "sheep"], none⟩, ⟨2, ["salt", "sea", "gull"], none⟩,
    ⟨3, ["sheep", "hill"], none⟩]

/-- A lexicon of all words of the notes. -/
def notedWords : Lexicon := Lexicon.ofList ["gull", "hill", "salt", "sea", "sheep"]

theorem reordering_renames_positions_notes :
    unlimited.settings.seeds.limit = none ∧ notes.Perm notes.reverse ∧
      (∀ d ∈ notes, ∀ t ∈ d.terms, t ∈ notedWords.terms) ∧
      ∃ r r', (unlimited.cluster notedWords notes false).1 = .ok r ∧
        (unlimited.cluster notedWords notes.reverse false).1 = .ok r' ∧ r'.merges = r.merges := by
  have hperm : notes.Perm notes.reverse := (List.reverse_perm notes).symm
  have hknown : ∀ d ∈ notes, ∀ t ∈ d.terms, t ∈ notedWords.terms := by decide
  obtain ⟨r, r', hr, hr', hmerges, -⟩ := reordering_renames_positions unlimited rfl hperm hknown
  exact ⟨rfl, hperm, hknown, r, r', hr, hr', hmerges⟩

end ToleranceClustering
