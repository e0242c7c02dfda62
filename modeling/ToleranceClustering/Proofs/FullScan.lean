import ToleranceClustering.Proofs.ClusterRun
import ToleranceClustering.Proofs.ExtractionReference

/-!
# The search through the postings is a full scan

The upper approximation of some terms looks only at the documents in their postings. It still finds every document of
positive membership, since such a document holds one of the terms: the result is the one of looking at all documents
(`fullScan_of_build`). Where all the terms of a document are in the set, what lies inside is its whole weight, summed in the
same order, so the membership is one (`membership_eq_one`), provided the total is finite; the totals of extracted vectors are
(`isFinite_total_extract`).
-/

namespace ToleranceClustering

variable {α : Type} [Scalar α]

/-- An approximation that is what a scan of the whole corpus finds for a list of terms at a threshold. -/
structure Approximation.FullScan (c : Corpus α) (terms : List TermId) (μ : α) (a : Approximation α) : Prop where
  ascending : Ascending a.terms
  mem_terms : ∀ t, t ∈ a.terms ↔ t ∈ terms
  positions : Ascending a.positions
  mem_members : ∀ pos m, (pos, m) ∈ a.members ↔
    pos < c.size ∧ m = membership (c.vector pos) a.terms ∧ 0 < m ∧ μ ≤ m

/-- Looking at every document finds what a scan finds. -/
theorem Corpus.fullScan_approximate (c : Corpus α) (terms : List TermId) (μ : α) :
    (c.approximate terms μ).FullScan c terms μ where
  ascending := Ascending.ascending_ofList terms
  mem_terms _ := Ascending.mem_ofList
  positions := by
    rw [c.positions_approximate]
    exact c.ascending_covered terms μ
  mem_members := by
    intro pos m
    have hsame : membership (c.vector pos) (c.approximate terms μ).terms = membership (c.vector pos) terms :=
      membership_congr _ fun _ => Ascending.mem_ofList
    rw [hsame, c.members_approximate, List.mem_map]
    constructor
    · rintro ⟨pos', hcovered, he⟩
      obtain ⟨hlt, hpos, hμ⟩ := c.mem_covered.1 hcovered
      obtain ⟨rfl, rfl⟩ := Prod.mk.inj he
      exact ⟨hlt, rfl, hpos, hμ⟩
    · rintro ⟨hlt, rfl, hpos, hμ⟩
      exact ⟨pos, c.mem_covered.2 ⟨hlt, hpos, hμ⟩, rfl⟩

/-- All of the weight lies inside a set with all the terms. -/
theorem inside_eq_values {v : TermVector α} {ts : List TermId} (h : ∀ t ∈ v.terms, t ∈ ts) :
    inside v ts = v.weights.values := by
  have hall : (v.entries.filter fun e => ts.contains e.1) = v.entries := by
    refine List.filter_eq_self.2 ?_
    intro e he
    exact List.contains_iff_mem.2 (h e.1 (List.mem_map_of_mem he))
  unfold inside
  rw [hall]
  rfl

section Rounded

variable [Scalar.Rounded α] {c : Corpus α} {τ : α} {f : Measure α} {s : ToleranceSpace α}

/-- Looking through the postings finds what a scan finds. -/
theorem ToleranceSpace.fullScan_of_build (h : build c τ f = .ok s) (terms : List TermId) (μ : α) :
    (s.approximate c terms μ).FullScan c terms μ := by
  rw [approximate_eq_approximate h]
  exact c.fullScan_approximate terms μ

/-- Neither the order nor the repetition of the terms matters. -/
theorem ToleranceSpace.approximate_congr (h : build c τ f = .ok s) {ts us : List TermId} (hsame : ∀ t, t ∈ ts ↔ t ∈ us)
    (μ : α) : s.approximate c ts μ = s.approximate c us μ := by
  rw [approximate_eq_approximate h, approximate_eq_approximate h]
  exact c.approximate_congr hsame μ

/-! ## Whole documents -/

/-- The total of a vector with a term is positive. -/
theorem TermVector.total_pos {v : TermVector α} (h : v.isEmpty = false) : 0 < v.total := by
  have hne : v.weights.entries ≠ [] := by
    intro hnil
    have hempty : v.isEmpty = true := List.isEmpty_iff.2 hnil
    rw [hempty] at h
    nomatch h
  obtain ⟨e, he⟩ := List.exists_mem_of_ne_nil _ hne
  have hsub : [e.2].Sublist v.weights.values := List.singleton_sublist.2 (List.mem_map_of_mem he)
  exact Scalar.Ordered.lt_of_lt_of_le (v.positive e he).1 (Scalar.sum_le_sum hsub (weights_nonneg v))

/-- A document with a term has membership one in a set with all its terms, where its total is one times itself. -/
theorem membership_eq_one {v : TermVector α} {ts : List TermId} (hne : v.isEmpty = false) (h : ∀ t ∈ v.terms, t ∈ ts)
    (hself : v.total / v.total = 1) : membership v ts = 1 := by
  have hpos : ¬v.total ≤ 0 := fun hle => Scalar.not_lt_of_le hle (TermVector.total_pos hne)
  have hsum : Scalar.sum (inside v ts) = v.total := by
    rw [inside_eq_values h]
    rfl
  rw [membership_eq, if_neg hpos, hsum, hself]
  exact Scalar.clamp_of_between (Scalar.not_lt_of_le (Scalar.Ordered.le_of_lt Scalar.Ordered.zero_lt_one))
    (Scalar.Ordered.lt_irrefl 1)

end Rounded

/-! ## Extracted vectors -/

namespace Extraction

variable {log : Float → Float} {e : Extraction (Binary64 log)} {lex : Lexicon} {docs : List Document}

/-- A vector has no more terms than the batch has tokens. -/
theorem length_entries_extract (e : Extraction (Binary64 log)) (lex : Lexicon) {pos : Position} {d : Document}
    (h : docs[pos]? = some d) :
    ((extract e lex docs).1.vector pos).entries.length ≤ (docs.flatMap Document.tokens).length := by
  have hd := List.mem_of_getElem? h
  have hsub : ((extract e lex docs).1.vector pos).terms ⊆ d.terms.map (lexiconAfter lex docs).number := by
    intro t ht
    obtain ⟨term, hterm, rfl⟩ := exists_of_contains h ((TermVector.contains_iff _ t).2 ht)
    exact List.mem_map_of_mem hterm
  calc ((extract e lex docs).1.vector pos).entries.length = ((extract e lex docs).1.vector pos).terms.length :=
        (List.length_map _).symm
    _ ≤ (d.terms.map (lexiconAfter lex docs).number).length :=
        ((Ascending.nodup (TermVector.ascending_terms _)).subperm hsub).length_le
    _ = d.terms.length := List.length_map _
    _ ≤ (docs.flatMap Document.tokens).length := length_terms_le hd

/-- The total of a vector of a batch that a machine can hold is finite: too few weights, all too small. -/
theorem isFinite_total_extract (hlog : e.weighting = .logInverse → Binary64.IsLogarithm log)
    (hdocs : docs.length < 2 ^ 64) (htokens : (docs.flatMap Document.tokens).length < 2 ^ 53) {pos : Position}
    (hpos : pos < docs.length) : Scalar.isFinite ((extract e lex docs).1.vector pos).total = true := by
  have h := List.getElem?_eq_getElem hpos
  have hd := List.getElem_mem hpos
  have hwords : (docs.flatMap Document.tokens).length < 2 ^ 64 := by omega
  have hbound : ∀ w ∈ ((extract e lex docs).1.vector pos).weights.values, Binary64.UpTo (2 ^ 128) w := by
    intro w hw
    obtain ⟨⟨t, _⟩, he, rfl⟩ := List.mem_map.1 hw
    obtain ⟨term, ht, -, -, rfl, -⟩ := (mem_entries_extract e lex hlog hdocs hwords h).1 he
    have hcount : docs[pos].terms.count term < 2 ^ 64 := lt_of_le_of_lt (count_le_length hd term) (by omega)
    have hweight := Binary64.upTo_weight hlog hcount (spread_pos hd ht) (spread_le docs term) hdocs
    rwa [Weighting.weight_eq_scaled _ (List.count_pos_iff.2 ht) (spread_pos hd ht)] at hweight
  have hlength : ((extract e lex docs).1.vector pos).weights.values.length < 2 ^ 53 := by
    have hle := length_entries_extract e lex h
    have hsame : ((extract e lex docs).1.vector pos).weights.values.length =
        ((extract e lex docs).1.vector pos).entries.length := List.length_map _
    omega
  exact (Binary64.upTo_sum (by decide) hbound hlength).isFinite

/-- A document of a batch that a machine can hold has membership one in a set with all its terms, if it has any. -/
theorem membership_extract_eq_one (hlog : e.weighting = .logInverse → Binary64.IsLogarithm log)
    (hdocs : docs.length < 2 ^ 64) (htokens : (docs.flatMap Document.tokens).length < 2 ^ 53) {pos : Position}
    (hpos : pos < docs.length) (hne : ((extract e lex docs).1.vector pos).isEmpty = false) {ts : List TermId}
    (hall : ∀ t ∈ ((extract e lex docs).1.vector pos).terms, t ∈ ts) :
    membership ((extract e lex docs).1.vector pos) ts = 1 := by
  refine membership_eq_one hne hall ?_
  exact Binary64.div_self_of_finite (TermVector.total_pos hne) (isFinite_total_extract hlog hdocs htokens hpos)

end Extraction

namespace ToleranceSpace

/-- Over binary64 the search through the postings of a space is a full scan of its corpus, for any list of terms and any
threshold, and does not depend on how the terms are listed. In an extracted corpus a document that has terms, all of them
in the set, is covered with membership one at every threshold up to one. -/
theorem approximate_eq_full_scan {log : Float → Float} (c : Corpus (Binary64 log)) {τ : Binary64 log}
    (hτ : Scalar.withinAbove 0 1 τ = true) (f : Measure (Binary64 log)) :
    ∃ s, build c τ f = .ok s ∧
      (∀ terms μ, (s.approximate c terms μ).FullScan c terms μ) ∧
      (∀ ts us, (∀ t, t ∈ ts ↔ t ∈ us) → ∀ μ, s.approximate c ts μ = s.approximate c us μ) ∧
      ∀ (e : Extraction (Binary64 log)) lex docs, (e.weighting = .logInverse → Binary64.IsLogarithm log) →
        docs.length < 2 ^ 64 → (docs.flatMap Document.tokens).length < 2 ^ 53 → c = (e.extract lex docs).1 →
        ∀ pos < c.size, (c.vector pos).isEmpty = false → ∀ terms, (∀ t ∈ (c.vector pos).terms, t ∈ terms) → ∀ μ,
          membership (c.vector pos) (s.approximate c terms μ).terms = 1 ∧
            (μ ≤ 1 → (pos, 1) ∈ (s.approximate c terms μ).members) := by
  obtain ⟨s, hs⟩ := exists_build c hτ f
  refine ⟨s, hs, fullScan_of_build hs, fun _ _ hsame => approximate_congr hs hsame, ?_⟩
  rintro e lex docs hlog hdocs htokens rfl pos hpos hne terms hall μ
  have hscan := fullScan_of_build hs terms μ
  rw [Extraction.size_extract] at hpos
  have hone : membership ((e.extract lex docs).1.vector pos) (s.approximate (e.extract lex docs).1 terms μ).terms = 1 :=
    Extraction.membership_extract_eq_one hlog hdocs htokens hpos hne fun t ht => (hscan.mem_terms t).2 (hall t ht)
  refine ⟨hone, ?_⟩
  intro hμ
  refine (hscan.mem_members pos 1).2 ⟨?_, hone.symm, Scalar.Ordered.zero_lt_one, hμ⟩
  rwa [Extraction.size_extract]

/-- The first of two documents has one term of positive weight; a set with that term twice and an unknown one covers it with
membership one. -/
theorem full_scan_of_two_documents :
    ∃ (c : Corpus (Binary64 Extraction.logUpToTwo)) (τ : Binary64 Extraction.logUpToTwo),
      Scalar.withinAbove 0 1 τ = true ∧ ∃ s, build c τ Similarity.jaccard.measure = .ok s ∧
        (s.approximate c [9, 0, 9] 1).FullScan c [9, 0, 9] 1 ∧ (s.approximate c [9, 0, 9] 1).terms = [0, 9] ∧
        (0, 1) ∈ (s.approximate c [9, 0, 9] 1).members := by
  let e : Extraction (Binary64 Extraction.logUpToTwo) := ⟨.logInverse, 1⟩
  let docs : List Document := [⟨7, ["b", "a", "", "a"], none⟩, ⟨8, ["a"], none⟩]
  have hτ : Scalar.withinAbove 0 1 (1 : Binary64 Extraction.logUpToTwo) = true := by decide +kernel
  obtain ⟨s, hs, hscan, -, hwhole⟩ :=
    approximate_eq_full_scan (e.extract Lexicon.empty docs).1 hτ Similarity.jaccard.measure
  have hterms : ((e.extract Lexicon.empty docs).1.vector 0).terms = [0] := by decide +kernel
  have hne : ((e.extract Lexicon.empty docs).1.vector 0).isEmpty = false := by decide +kernel
  refine ⟨_, 1, hτ, s, hs, hscan _ _, rfl, ?_⟩
  refine (hwhole e Lexicon.empty docs (fun _ => Extraction.isLogarithm_logUpToTwo) (by decide) (by decide) rfl 0
    (by decide +kernel) hne [9, 0, 9] ?_ 1).2 Scalar.one_le_one
  rw [hterms]
  decide

end ToleranceSpace

end ToleranceClustering
