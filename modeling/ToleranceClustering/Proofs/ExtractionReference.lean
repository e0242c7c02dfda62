import ToleranceClustering.Proofs.Binary64.Logarithm
import ToleranceClustering.Proofs.Extraction

/-!
# Extraction, term by term

Extraction counts, then counts documents, then weighs, over tables and numbers. `Extraction.Reference` says what comes out
in terms of the documents alone: which terms each vector has and with which weights, which documents have none, and which
terms the lexicon has gained. Over binary64 extraction meets it for every batch that a machine can hold
(`extract_meets_reference`), since no weight is then infinite.
-/

namespace ToleranceClustering

/-! ## The lexicon afterwards -/

namespace Lexicon

theorem find?_eq_some_iff_number {lex : Lexicon} {term : String} (h : term ∈ lex.terms) {t : TermId} :
    lex.find? term = some t ↔ lex.number term = t := by
  rw [find?_eq_some_iff, term?, number]
  constructor
  · intro hget
    obtain ⟨hlt, rfl⟩ := List.getElem?_eq_some_iff.1 hget
    exact lex.nodup.idxOf_getElem t hlt
  · rintro rfl
    rw [List.getElem?_eq_getElem (List.idxOf_lt_length_of_mem h), List.getElem_idxOf]

/-- No two terms have one number. -/
theorem eq_of_find?_eq_some {lex : Lexicon} {a b : String} {t : TermId} (ha : lex.find? a = some t)
    (hb : lex.find? b = some t) : a = b := by
  have hterm := find?_eq_some_iff.1 ha
  rw [find?_eq_some_iff.1 hb] at hterm
  exact (Option.some.inj hterm).symm

theorem internAll_append (lex : Lexicon) (ts us : List String) :
    (lex.internAll (ts ++ us)).2 = ((lex.internAll ts).2.internAll us).2 := by
  induction ts generalizing lex with
  | nil => rfl
  | cons t ts ih => exact ih (lex.intern t).2

/-- Interning adds no more terms than there are. -/
theorem size_internAll_le (lex : Lexicon) (ts : List String) : (lex.internAll ts).2.size ≤ lex.size + ts.length := by
  induction ts generalizing lex with
  | nil => exact Nat.le_refl _
  | cons t ts ih =>
    have hfirst : (lex.intern t).2.size ≤ lex.size + 1 := by
      by_cases ht : t ∈ lex.terms
      · rw [intern_of_mem ht]
        exact Nat.le_succ _
      · rw [size, (terms_intern_of_not_mem ht).2, List.length_append]
        exact Nat.le_refl _
    have hrest : (lex.internAll (t :: ts)).2.size ≤ (lex.intern t).2.size + ts.length := ih (lex.intern t).2
    rw [List.length_cons]
    omega

/-- Interning adds the unseen terms, each once, in the order in which they are first met. -/
theorem terms_internAll (lex : Lexicon) (ts : List String) :
    (lex.internAll ts).2.terms = lex.terms ++ (ts.filter (· ∉ lex.terms)).eraseDups := by
  induction ts generalizing lex with
  | nil => exact (List.append_nil _).symm
  | cons t ts ih =>
    have hall : (lex.internAll (t :: ts)).2 = ((lex.intern t).2.internAll ts).2 := rfl
    rw [hall, ih]
    by_cases ht : t ∈ lex.terms
    · rw [intern_of_mem ht, List.filter_cons_of_neg (by simpa using ht)]
    · have hrest : ts.filter (· ∉ lex.terms ++ [t]) = (ts.filter (· ∉ lex.terms)).filter (fun u => !u == t) := by
        rw [List.filter_filter]
        refine List.filter_congr ?_
        intro u _
        simp [and_comm, beq_eq_decide]
      rw [(terms_intern_of_not_mem ht).2, List.filter_cons_of_pos (by simpa using ht), List.eraseDups_cons, hrest,
        List.append_assoc, List.singleton_append]

end Lexicon

/-- Counting the terms of a batch interns them document by document. -/
theorem Extraction.lexiconAfter_eq_internAll (lex : Lexicon) (docs : List Document) :
    lexiconAfter lex docs = (lex.internAll (docs.flatMap Document.terms)).2 := by
  induction docs generalizing lex with
  | nil => rfl
  | cons d ds ih =>
    have hall : lexiconAfter lex (d :: ds) = lexiconAfter (lex.internAll d.terms).2 ds := rfl
    rw [hall, ih, List.flatMap_cons, Lexicon.internAll_append]

/-- A batch adds no more terms to the lexicon than it has. -/
theorem Extraction.size_lexiconAfter_le (lex : Lexicon) (docs : List Document) :
    (lexiconAfter lex docs).size ≤ lex.size + (docs.flatMap Document.terms).length := by
  rw [lexiconAfter_eq_internAll]
  exact lex.size_internAll_le _

variable {α : Type} [Scalar α]

/-! ## The reference -/

/-- The weight of a term that a document has `count` times and that is in `spread` of `documents` documents. -/
def Weighting.scaled (w : Weighting) (count spread documents : Nat) : α :=
  match w with
  | frequency => (count : α)
  | logInverse => (count : α) * Scalar.log ((documents : α) / (spread : α))
  | linearInverse => (count : α) * ((documents : α) / (spread : α))

theorem Weighting.weight_eq_scaled (w : Weighting) {count spread : Nat} (hcount : 0 < count) (hspread : 0 < spread)
    (documents : Nat) : w.weight count spread documents = (w.scaled count spread documents : α) := by
  have hne : ¬(count = 0 ∨ spread = 0) := by omega
  unfold weight
  rw [if_neg hne]
  rfl

namespace Extraction

/-- Whether a term is in more documents than the share allows. Its documents are counted over the whole batch. -/
def Widespread (e : Extraction α) (docs : List Document) (term : String) : Prop :=
  e.maxShare * (docs.length : α) < (spread docs term : α)

/-- What extraction makes of a batch, said of its documents one by one. -/
structure Reference (e : Extraction α) (lex : Lexicon) (docs : List Document) (c : Corpus α) (later : Lexicon) :
    Prop where
  size : c.size = docs.length
  ids : ∀ pos d, docs[pos]? = some d → c.id pos = d.id
  entries : ∀ pos d, docs[pos]? = some d → ∀ t w, (t, w) ∈ (c.vector pos).entries ↔
    ∃ term ∈ d.terms, later.find? term = some t ∧ ¬e.Widespread docs term ∧
      w = e.weighting.scaled (d.terms.count term) (spread docs term) docs.length ∧ 0 < w
  ascending : ∀ pos, Ascending ((c.vector pos).entries.map Prod.fst)
  total : ∀ pos, (c.vector pos).total = Scalar.sum ((c.vector pos).entries.map Prod.snd)
  malformed : Ascending c.malformed ∧ ∀ pos, pos ∈ c.malformed ↔ pos < docs.length ∧ (c.vector pos).entries = []
  limited : e.weighting ≠ .logInverse → ∀ pos d, docs[pos]? = some d → ∀ term ∈ d.terms, ∀ t,
    later.find? term = some t → ((c.vector pos).contains t = true ↔ ¬e.Widespread docs term)
  everywhere : e.weighting = .logInverse → ∀ term, (∀ d ∈ docs, term ∈ d.terms) → ∀ t, later.find? term = some t →
    ∀ pos < docs.length, (c.vector pos).contains t = false
  lexicon : later.terms = lex.terms ++ ((docs.flatMap Document.terms).filter (· ∉ lex.terms)).eraseDups

/-- A document of the batch has no more terms than the batch has tokens. -/
theorem length_terms_le {docs : List Document} {d : Document} (hd : d ∈ docs) :
    d.terms.length ≤ (docs.flatMap Document.tokens).length :=
  calc d.terms.length ≤ d.tokens.length := List.length_filter_le _ _
    _ ≤ (docs.flatMap Document.tokens).length := by
      rw [List.length_flatMap]
      exact List.le_sum_of_mem (List.mem_map_of_mem hd)

theorem count_le_length {docs : List Document} {d : Document} (hd : d ∈ docs) (term : String) :
    d.terms.count term ≤ (docs.flatMap Document.tokens).length :=
  List.count_le_length.trans (length_terms_le hd)

theorem spread_pos {docs : List Document} {d : Document} (hd : d ∈ docs) {term : String} (ht : term ∈ d.terms) :
    0 < spread docs term :=
  List.countP_pos_iff.2 ⟨d, hd, List.contains_iff_mem.2 ht⟩

theorem spread_le (docs : List Document) (term : String) : spread docs term ≤ docs.length := List.countP_le_length

variable {log : Float → Float} (e : Extraction (Binary64 log)) (lex : Lexicon) {docs : List Document}

/-- A term of a batch that a machine can hold has its weight in the vector exactly if that is positive and the term is not
too widespread: no weight is infinite. -/
theorem mem_entries_extract (hlog : e.weighting = .logInverse → Binary64.IsLogarithm log) (hdocs : docs.length < 2 ^ 64)
    (hwords : (docs.flatMap Document.tokens).length < 2 ^ 64) {pos : Position} {d : Document}
    (h : docs[pos]? = some d) {t : TermId} {w : Binary64 log} :
    (t, w) ∈ ((extract e lex docs).1.vector pos).entries ↔
      ∃ term ∈ d.terms, (lexiconAfter lex docs).find? term = some t ∧ ¬e.Widespread docs term ∧
        w = e.weighting.scaled (d.terms.count term) (spread docs term) docs.length ∧ 0 < w := by
  have hd := List.mem_of_getElem? h
  rw [vector_extract e lex docs h, TermVector.mem_entries, weight?_ofPairs_pairsOf]
  have hweight : ∀ term ∈ d.terms, e.weighting.weight (d.terms.count term) (spread docs term) docs.length =
      (e.weighting.scaled (d.terms.count term) (spread docs term) docs.length : Binary64 log) :=
    fun term ht => Weighting.weight_eq_scaled _ (List.count_pos_iff.2 ht) (spread_pos hd ht) _
  constructor
  · rintro ⟨x, hp, rfl, hpos, -⟩
    obtain ⟨term, ht, ht', hshare, rfl⟩ := (mem_pairsOf hd).1 hp
    have hx := Scalar.Rounded.pos_of_zero_add hpos
    refine ⟨term, ht, (Lexicon.find?_eq_some_iff_number (mem_lexiconAfter hd ht)).2 ht', hshare, ?_, hpos⟩
    rw [Binary64.zero_add_eq hx, hweight term ht]
  · rintro ⟨term, ht, ht', hshare, rfl, hpos⟩
    have hnumber := (Lexicon.find?_eq_some_iff_number (mem_lexiconAfter hd ht)).1 ht'
    have hcount : d.terms.count term < 2 ^ 64 := lt_of_le_of_lt (count_le_length hd term) (by omega)
    have hfinite := (Binary64.upTo_weight hlog hcount (spread_pos hd ht) (spread_le docs term) hdocs).isFinite
    rw [hweight term ht] at hfinite
    refine ⟨_, (mem_pairsOf hd).2 ⟨term, ht, hnumber, hshare, (hweight term ht).symm⟩, ?_, hpos, hfinite⟩
    exact (Binary64.zero_add_eq hpos).symm

/-- Extraction over binary64 meets its reference for every lexicon, share and batch that a machine can hold. Of the
logarithm only what `IsLogarithm` says is needed, and only if the weighting takes one. -/
theorem extract_meets_reference (hlog : e.weighting = .logInverse → Binary64.IsLogarithm log)
    (hdocs : docs.length < 2 ^ 64) (htokens : (docs.flatMap Document.tokens).length < 2 ^ 32) :
    Reference e lex docs (extract e lex docs).1 (extract e lex docs).2 where
  size := size_extract e lex docs
  ids _ _ h := id_extract e lex docs h
  entries _ _ h _ _ := mem_entries_extract e lex hlog hdocs (htokens.trans (by decide)) h
  ascending pos := TermVector.ascending_terms _
  total _ := rfl
  malformed := by
    refine ⟨(Ascending.ascending_range _).filter _, ?_⟩
    intro pos
    rw [Corpus.malformed, List.mem_filter, List.mem_range, size_extract, Corpus.isMalformed, TermVector.isEmpty,
      List.isEmpty_iff]
  limited := by
    intro hw pos d h term ht t hfind
    have hd := List.mem_of_getElem? h
    rw [TermVector.contains, Option.isSome_iff_exists]
    simp only [← TermVector.mem_entries]
    constructor
    · rintro ⟨w, hmem⟩
      obtain ⟨term', ht', hfind', hshare, -⟩ := (mem_entries_extract e lex hlog hdocs (htokens.trans (by decide)) h).1 hmem
      rwa [Lexicon.eq_of_find?_eq_some hfind hfind']
    · intro hshare
      have hcount : d.terms.count term < 2 ^ 64 := lt_of_le_of_lt (count_le_length hd term) (by omega)
      have hpos : 0 < (e.weighting.weight (d.terms.count term) (spread docs term) docs.length : Binary64 log) :=
        Binary64.weight_pos hw (List.count_pos_iff.2 ht) hcount (spread_pos hd ht) (spread_le docs term) hdocs
      rw [Weighting.weight_eq_scaled _ (List.count_pos_iff.2 ht) (spread_pos hd ht)] at hpos
      exact ⟨_, (mem_entries_extract e lex hlog hdocs (htokens.trans (by decide)) h).2 ⟨term, ht, hfind, hshare, rfl, hpos⟩⟩
  everywhere := by
    intro hw term hall t hfind pos hpos
    have hd := List.getElem_mem hpos
    have h := List.getElem?_eq_getElem hpos
    rw [← Bool.not_eq_true, TermVector.contains, Option.isSome_iff_exists]
    simp only [← TermVector.mem_entries]
    rintro ⟨w, hmem⟩
    obtain ⟨term', ht', hfind', -, rfl, hweight⟩ := (mem_entries_extract e lex hlog hdocs (htokens.trans (by decide)) h).1 hmem
    obtain rfl := Lexicon.eq_of_find?_eq_some hfind hfind'
    have hspread : spread docs term = docs.length :=
      List.countP_eq_length.2 fun d hd => List.contains_iff_mem.2 (hall d hd)
    rw [hw, hspread, ← Weighting.weight_eq_scaled _ (List.count_pos_iff.2 ht') (by omega)] at hweight
    have hcount : docs[pos].terms.count term < 2 ^ 64 := lt_of_le_of_lt (count_le_length hd term) (by omega)
    exact Binary64.not_weight_everywhere_pos (hlog hw) hcount hdocs hweight
  lexicon := by
    have hafter : (extract e lex docs).2 = lexiconAfter lex docs := by rw [extract_eq]
    rw [hafter, lexiconAfter_eq_internAll, Lexicon.terms_internAll]

/-- The natural logarithm at one and at two, and its value at two from there on. -/
def logUpToTwo (x : Float) : Float := if x ≤ 1.0 then 0.0 else 0.6931471805599453

theorem logUpToTwo_cases (x : Float) : logUpToTwo x = 0.0 ∨ logUpToTwo x = 0.6931471805599453 := by
  unfold logUpToTwo
  split
  · exact Or.inl rfl
  · exact Or.inr rfl

theorem isLogarithm_logUpToTwo : Binary64.IsLogarithm logUpToTwo where
  one := (if_pos (by decide +kernel) : logUpToTwo 1.0 = 0.0)
  bounds := by
    intro x hx
    have hvalue : ∀ y : Float, logUpToTwo x = y → Scalar.within Zero.zero One.one y = true →
        0 ≤ Scalar.log x ∧ Scalar.log x ≤ x := by
      rintro _ rfl h
      rw [Scalar.within, Bool.and_eq_true, decide_eq_true_iff, decide_eq_true_iff] at h
      exact ⟨h.1, Scalar.Ordered.le_trans (α := Binary64 logUpToTwo) h.2 hx⟩
    rcases logUpToTwo_cases x with h | h
    · exact hvalue _ h (by decide +kernel)
    · exact hvalue _ h (by decide +kernel)

/-- Two documents with a term in both, a term in the first only, and an empty token; the latter term is known before. Under
the logarithm the common term weighs nothing, so the second document has no vector. -/
theorem extract_two_documents :
    ∃ (e : Extraction (Binary64 logUpToTwo)) (docs : List Document),
      e.weighting = .logInverse ∧ docs.map Document.tokens = [["b", "a", "", "a"], ["a"]] ∧
        Reference e (Lexicon.ofList ["b"]) docs (extract e (Lexicon.ofList ["b"]) docs).1
          (extract e (Lexicon.ofList ["b"]) docs).2 ∧
        ((extract e (Lexicon.ofList ["b"]) docs).1.vector 0).terms = [0] ∧
        (extract e (Lexicon.ofList ["b"]) docs).1.malformed = [1] ∧
        (extract e (Lexicon.ofList ["b"]) docs).2.terms = ["b", "a"] := by
  refine ⟨⟨.logInverse, 1⟩, [⟨7, ["b", "a", "", "a"], none⟩, ⟨8, ["a"], none⟩], rfl, rfl, ?_, ?_, ?_, ?_⟩
  · exact extract_meets_reference _ _ (fun _ => isLogarithm_logUpToTwo) (by decide) (by decide)
  · decide +kernel
  · decide +kernel
  · decide +kernel

end Extraction

end ToleranceClustering
