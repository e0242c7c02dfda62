import ToleranceClustering.Proofs.Checked.Lookup
import ToleranceClustering.Proofs.ExtractionReference

/-!
# Checked extraction

Extraction looks up the document count of every term it weighs, and the id of every document without usable terms. Term
numbers and the counters of a document have 32 bits. For a batch with less than `2 ^ 32` tokens, after which the lexicon has
no more than `2 ^ 32` terms, nothing is missed and nothing overflows (`Checked.extract_eq`).
-/

namespace ToleranceClustering

namespace Checked

/-! ## Counting -/

/-- Counts `k` once more, unless its counter of 32 bits is full. -/
def add (t : Tally) (k : Nat) : Option Tally := if t.count k + 1 < 2 ^ 32 then some (t.add k) else none

/-- Counts every number of a list. -/
def addAll (t : Tally) (ks : List Nat) : Option Tally := ks.foldlM add t

/-- Interns a term, if its number has 32 bits. -/
def intern (lex : Lexicon) (term : String) : Option (TermId × Lexicon) :=
  if (lex.intern term).1 < 2 ^ 32 then some (lex.intern term) else none

/-- Interns the terms of a list from left to right. -/
def internAll (lex : Lexicon) : List String → Option (List TermId × Lexicon)
  | [] => some ([], lex)
  | term :: rest => do
    let first ← intern lex term
    let others ← internAll first.2 rest
    return (first.1 :: others.1, others.2)

/-- The term counts of every document. -/
def countTerms (lex : Lexicon) : List Document → Option (List Tally × Lexicon)
  | [] => some ([], lex)
  | d :: ds => do
    let interned ← internAll lex d.terms
    let count ← addAll Tally.empty interned.1
    let others ← countTerms interned.2 ds
    return (count :: others.1, others.2)

/-- Counters that have room for a list count it. -/
theorem addAll_eq {t : Tally} {ks : List Nat} (h : ∀ k, t.count k + ks.count k < 2 ^ 32) :
    addAll t ks = some (t.addAll ks) := by
  refine (foldlM_eq_some (g := Tally.add) (fun t ks => ∀ k, t.count k + ks.count k < 2 ^ 32) ?_ h).1
  intro t k ks hroom
  refine ⟨if_pos ?_, ?_⟩
  · have hk := hroom k
    rw [List.count_cons_self] at hk
    omega
  · intro j
    have hj := hroom j
    rw [List.count_cons] at hj
    rw [Tally.count_add]
    by_cases hjk : j = k
    · subst hjk
      simp only [beq_self_eq_true, if_true] at hj ⊢
      omega
    · have hkj : (k == j) = false := by simpa using fun he : k = j => hjk he.symm
      simp only [hkj, Bool.false_eq_true, if_false] at hj
      simp only [hjk, if_false]
      omega

/-- Terms whose numbers all have 32 bits are interned. -/
theorem internAll_eq {lex : Lexicon} {terms : List String} (h : (lex.internAll terms).2.size ≤ 2 ^ 32) :
    internAll lex terms = some (lex.internAll terms) := by
  induction terms generalizing lex with
  | nil => rfl
  | cons t ts ih =>
    have hall : lex.internAll (t :: ts) =
        ((lex.intern t).1 :: ((lex.intern t).2.internAll ts).1, ((lex.intern t).2.internAll ts).2) := rfl
    have hafter : ((lex.intern t).2.internAll ts).2.size ≤ 2 ^ 32 := h
    obtain ⟨-, hmem, hnumber⟩ := lex.intern_spec t
    obtain ⟨hextends, -, -⟩ := (lex.intern t).2.internAll_spec ts
    have hlt : (lex.intern t).1 < 2 ^ 32 := by
      have hid : (lex.intern t).1 < (lex.intern t).2.size := hnumber ▸ List.idxOf_lt_length_of_mem hmem
      exact Nat.lt_of_lt_of_le hid (Nat.le_trans hextends.length_le hafter)
    rw [internAll, intern, bind_of_eq (if_pos hlt), ih hafter, hall]
    rfl

/-- A batch whose terms all have numbers of 32 bits, and whose documents have less than `2 ^ 32` terms each, is counted. -/
theorem countTerms_eq {lex : Lexicon} {docs : List Document} (hlength : ∀ d ∈ docs, d.terms.length < 2 ^ 32)
    (hsize : (Extraction.countTerms lex docs).2.size ≤ 2 ^ 32) :
    countTerms lex docs = some (Extraction.countTerms lex docs) := by
  induction docs generalizing lex with
  | nil => rfl
  | cons d ds ih =>
    obtain ⟨hd, hds⟩ := List.forall_mem_cons.1 hlength
    have hall : Extraction.countTerms lex (d :: ds) =
        (Tally.empty.addAll (lex.internAll d.terms).1 :: (Extraction.countTerms (lex.internAll d.terms).2 ds).1,
          (Extraction.countTerms (lex.internAll d.terms).2 ds).2) := rfl
    have hafter : (Extraction.countTerms (lex.internAll d.terms).2 ds).2.size ≤ 2 ^ 32 := hsize
    obtain ⟨hextends, -, -⟩ := Extraction.countTerms_spec (lex.internAll d.terms).2 ds
    have hbefore : (lex.internAll d.terms).2.size ≤ 2 ^ 32 := Nat.le_trans hextends.length_le hafter
    have hcount : ∀ k, Tally.empty.count k + (lex.internAll d.terms).1.count k < 2 ^ 32 := by
      intro k
      have hlen : (lex.internAll d.terms).1.length = d.terms.length := by
        rw [(lex.internAll_spec d.terms).2.2, List.length_map]
      have hle : (lex.internAll d.terms).1.count k ≤ (lex.internAll d.terms).1.length := List.count_le_length
      have hzero : Tally.empty.count k = 0 := rfl
      omega
    rw [countTerms, bind_of_eq (internAll_eq hbefore), bind_of_eq (addAll_eq hcount), ih hds hafter, hall]
    rfl

/-! ## Weighing -/

variable {α : Type} [Scalar α]

/-- The weight of a counted term, if its document count is there. -/
def weigh (e : Extraction α) (documents : Nat) (df : Tally) (entry : TermId × Nat) : Option (Option (TermId × α)) := do
  let spread ← df.find? entry.1
  return if e.maxShare * (documents : α) < (spread : α) then none
    else some (entry.1, e.weighting.weight entry.2 spread documents)

/-- The vector of a counted document. -/
def vectorOf (e : Extraction α) (documents : Nat) (df : Tally) (count : Tally) : Option (TermVector α) := do
  let weighed ← count.entries.mapM (weigh e documents df)
  return TermVector.ofPairs (weighed.filterMap id)

/-- The ids of the documents without usable terms, which are reported. -/
def malformedIds (c : Corpus α) : Option (List Nat) :=
  c.malformed.mapM fun pos => (c.documents[pos]?).map IndexedDocument.id

/-- The corpus of some documents, and the lexicon afterwards. -/
def extract (e : Extraction α) (lex : Lexicon) (docs : List Document) : Option (Corpus α × Lexicon) := do
  let counted ← countTerms lex docs
  let vectors ← counted.1.mapM (vectorOf e docs.length (Extraction.countDocuments counted.1))
  let c : Corpus α := ⟨(docs.zipWith (fun d v => ⟨d.id, v⟩) vectors).toArray⟩
  let _ ← malformedIds c
  return (c, counted.2)

/-- A term with an entry in some tally has a document count. -/
theorem find?_countDocuments {counts : List Tally} {count : Tally} (hcount : count ∈ counts) {entry : TermId × Nat}
    (h : entry ∈ count.entries) :
    (Extraction.countDocuments counts).find? entry.1 = some ((Extraction.countDocuments counts).count entry.1) := by
  have hpos : 0 < (Extraction.countDocuments counts).count entry.1 := by
    rw [Extraction.count_countDocuments]
    exact List.countP_pos_iff.2 ⟨count, hcount, List.contains_iff_mem.2 (List.mem_map_of_mem h)⟩
  unfold Tally.count at hpos ⊢
  cases hfind : (Extraction.countDocuments counts).find? entry.1 with
  | none =>
    rw [hfind] at hpos
    exact absurd hpos (Nat.lt_irrefl 0)
  | some n => rfl

theorem weigh_eq (e : Extraction α) (documents : Nat) {counts : List Tally} {count : Tally} (hcount : count ∈ counts)
    {entry : TermId × Nat} (h : entry ∈ count.entries) :
    weigh e documents (Extraction.countDocuments counts) entry =
      some (e.weigh documents (Extraction.countDocuments counts) entry) := by
  rw [weigh, find?_countDocuments hcount h]
  rfl

theorem vectorOf_eq (e : Extraction α) (documents : Nat) {counts : List Tally} {count : Tally} (hcount : count ∈ counts) :
    vectorOf e documents (Extraction.countDocuments counts) count = some (TermVector.ofPairs
      (count.entries.filterMap (e.weigh documents (Extraction.countDocuments counts)))) := by
  rw [vectorOf, bind_of_eq (mapM_eq_some fun entry hentry => weigh_eq e documents hcount hentry), List.filterMap_map]
  rfl

theorem malformedIds_eq (c : Corpus α) : malformedIds c = some (c.malformed.map c.id) := by
  refine mapM_eq_some ?_
  intro pos hpos
  rw [getElem?_documents (List.mem_range.1 (List.mem_filter.1 hpos).1)]
  rfl

/-- Extraction misses nothing and overflows nowhere. -/
theorem extract_eq (e : Extraction α) {lex : Lexicon} {docs : List Document}
    (htokens : (docs.flatMap Document.tokens).length < 2 ^ 32)
    (hsize : (Extraction.lexiconAfter lex docs).size ≤ 2 ^ 32) :
    extract e lex docs = some (e.extract lex docs) := by
  have hlength : ∀ d ∈ docs, d.terms.length < 2 ^ 32 :=
    fun d hd => Nat.lt_of_le_of_lt (Extraction.length_terms_le hd) htokens
  rw [extract, bind_of_eq (countTerms_eq hlength hsize),
    bind_of_eq (mapM_eq_some fun count hcount => vectorOf_eq e docs.length hcount)]
  simp only [malformedIds_eq]
  rfl

/-! ## Documents of a term -/

/-- Places that pass a test hold non-empty lists, so there are no more of them than elements in all the lists. -/
theorem length_filter_range_le {β γ : Type} (g : β → List γ) {xs : List β} {q : Nat → Bool}
    (h : ∀ pos x, xs[pos]? = some x → q pos = true → g x ≠ []) :
    ((List.range xs.length).filter q).length ≤ (xs.flatMap g).length := by
  induction xs generalizing q with
  | nil => exact Nat.le_refl 0
  | cons x xs ih =>
    have hrest := ih (q := q ∘ Nat.succ) fun pos y hy hq => h (pos + 1) y hy hq
    rw [List.length_cons, List.range_succ_eq_map, List.flatMap_cons, List.length_append, List.filter_cons, List.filter_map]
    split
    · rename_i hq
      have hx : 0 < (g x).length := List.length_pos_iff.2 (h 0 x rfl hq)
      rw [List.length_cons, List.length_map]
      omega
    · rw [List.length_map]
      omega

/-- No term is in more documents than the batch has tokens. -/
theorem length_holders_le (e : Extraction α) (lex : Lexicon) (docs : List Document) (t : TermId) :
    ((e.extract lex docs).1.holders t).length ≤ (docs.flatMap Document.tokens).length := by
  rw [Corpus.holders, Extraction.size_extract]
  refine length_filter_range_le Document.tokens ?_
  intro pos d hd ht
  obtain ⟨term, hterm, -⟩ := Extraction.exists_of_contains hd ht
  exact List.ne_nil_of_mem (List.mem_filter.1 hterm).1

end Checked

end ToleranceClustering
