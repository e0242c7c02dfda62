import ToleranceClustering.Proofs.AscendingSets
import ToleranceClustering.Proofs.Postings

/-!
# What is extracted

Every term of a batch has one number, whichever document it is met in first (`countTerms_spec`), so that a document's
tally counts its own terms and the document counts are those of the batch (`count_countDocuments`). A document of which
every term is left out has no vector to speak of (`isMalformed_of_dropped`).
-/

namespace ToleranceClustering

/-! ## Numbers of terms -/

namespace Lexicon

/-- The number a term has once it is in the lexicon. -/
def number (lex : Lexicon) (term : String) : TermId := lex.terms.idxOf term

/-- A lexicon that only has new terms behind those of another. -/
def Extends (lex later : Lexicon) : Prop := lex.terms <+: later.terms

theorem Extends.refl (lex : Lexicon) : lex.Extends lex := List.prefix_refl _

theorem Extends.trans {a b c : Lexicon} (h : a.Extends b) (h' : b.Extends c) : a.Extends c := List.IsPrefix.trans h h'

theorem Extends.mem {lex later : Lexicon} (h : lex.Extends later) {term : String} (ht : term ∈ lex.terms) :
    term ∈ later.terms := List.IsPrefix.mem ht h

/-- The number of a term never changes. -/
theorem Extends.number_eq {lex later : Lexicon} (h : lex.Extends later) {term : String} (ht : term ∈ lex.terms) :
    later.number term = lex.number term := by
  obtain ⟨rest, hr⟩ := h
  unfold number
  rw [← hr, List.idxOf_append_of_mem ht]

theorem number_injOn {lex : Lexicon} {a b : String} (ha : a ∈ lex.terms) (h : lex.number a = lex.number b) : a = b :=
  (List.idxOf_inj ha).1 h

/-- Interning a term adds it behind the others, if at all, and returns its number. -/
theorem intern_spec (lex : Lexicon) (term : String) :
    lex.Extends (lex.intern term).2 ∧ term ∈ (lex.intern term).2.terms ∧
      (lex.intern term).1 = (lex.intern term).2.number term := by
  by_cases h : term ∈ lex.terms
  · rw [intern_of_mem h]
    exact ⟨Extends.refl lex, h, rfl⟩
  · obtain ⟨hn, ht⟩ := terms_intern_of_not_mem h
    refine ⟨⟨[term], ht.symm⟩, ?_, ?_⟩
    · rw [ht]
      exact List.mem_append_right _ List.mem_cons_self
    · rw [hn, number, ht, List.idxOf_append_of_notMem h]
      simp [size]

/-- Interning the terms of a list numbers each of them as the lexicon does afterwards. -/
theorem internAll_spec (lex : Lexicon) (terms : List String) :
    lex.Extends (lex.internAll terms).2 ∧ (∀ t ∈ terms, t ∈ (lex.internAll terms).2.terms) ∧
      (lex.internAll terms).1 = terms.map (lex.internAll terms).2.number := by
  induction terms generalizing lex with
  | nil => exact ⟨Extends.refl lex, nofun, rfl⟩
  | cons t ts ih =>
    obtain ⟨he, ht, hn⟩ := intern_spec lex t
    obtain ⟨he', hts, hns⟩ := ih (lex.intern t).2
    have hall : lex.internAll (t :: ts) =
        ((lex.intern t).1 :: ((lex.intern t).2.internAll ts).1, ((lex.intern t).2.internAll ts).2) := rfl
    rw [hall]
    refine ⟨he.trans he', ?_, ?_⟩
    · intro u hu
      rcases List.mem_cons.1 hu with rfl | hu
      · exact he'.mem ht
      · exact hts u hu
    · rw [List.map_cons, he'.number_eq ht, hn, hns]

end Lexicon

/-! ## Tallies -/

namespace Tally

theorem mem_keys_addAll (ks : List Nat) (t : Tally) (j : Nat) : j ∈ (t.addAll ks).keys ↔ j ∈ ks ∨ j ∈ t.keys := by
  induction ks generalizing t with
  | nil => simp [addAll]
  | cons k ks ih =>
    have h : t.addAll (k :: ks) = (t.add k).addAll ks := rfl
    rw [h, ih, add, Table.keys_alter, Ascending.mem_insert, List.mem_cons]
    constructor
    · rintro (h | h | h)
      · exact Or.inl (Or.inr h)
      · exact Or.inl (Or.inl h)
      · exact Or.inr h
    · rintro ((h | h) | h)
      · exact Or.inr (Or.inl h)
      · exact Or.inl h
      · exact Or.inr (Or.inr h)

/-- A tally of a list has the numbers of the list for keys. -/
theorem mem_keys_tally (ks : List Nat) (j : Nat) : j ∈ (empty.addAll ks).keys ↔ j ∈ ks := by
  rw [mem_keys_addAll]
  exact or_iff_left List.not_mem_nil

theorem count_tally (ks : List Nat) (j : Nat) : (empty.addAll ks).count j = ks.count j := by
  rw [count_addAll]
  exact Nat.zero_add _

end Tally

/-- With no key twice, a key picks out one entry. -/
theorem filter_key_eq_singleton {β : Type} {es : List (Nat × β)} (h : (es.map Prod.fst).Nodup) {p : Nat × β}
    (hp : p ∈ es) : (es.filter fun q => q.1 = p.1) = [p] := by
  induction es with
  | nil => exact absurd hp List.not_mem_nil
  | cons x xs ih =>
    obtain ⟨hx, hxs⟩ := List.nodup_cons.1 h
    rcases List.mem_cons.1 hp with rfl | hp
    · have hnone : (xs.filter fun q => q.1 = p.1) = [] := by
        refine List.filter_eq_nil_iff.2 fun q hq he => hx ?_
        rw [← of_decide_eq_true he]
        exact List.mem_map_of_mem hq
      rw [List.filter_cons_of_pos (by simp), hnone]
    · have hne : ¬x.1 = p.1 := fun he => hx (he ▸ List.mem_map_of_mem hp)
      rw [List.filter_cons_of_neg (by simpa using hne), ih hxs hp]

/-- Dropping entries and changing values leaves some of the keys. -/
theorem map_fst_filterMap_sublist {β γ : Type} {f : Nat × β → Option (Nat × γ)}
    (h : ∀ x p, f x = some p → p.1 = x.1) (es : List (Nat × β)) :
    ((es.filterMap f).map Prod.fst).Sublist (es.map Prod.fst) := by
  induction es with
  | nil => exact List.Sublist.slnil
  | cons x xs ih =>
    rw [List.filterMap_cons, List.map_cons]
    cases hx : f x with
    | none => exact ih.cons x.1
    | some p =>
      have hp := h x p hx
      rw [List.map_cons, hp]
      exact ih.cons_cons x.1

/-- An entry of a table is what the table has at its key. -/
theorem Table.find?_of_mem {β : Type} (t : Table β) {e : Nat × β} (h : e ∈ t.entries) : t.find? e.1 = some e.2 := by
  unfold Table.find?
  have hasc := t.ascending
  revert h hasc
  induction t.entries with
  | nil => exact fun h => absurd h List.not_mem_nil
  | cons x xs ih =>
    intro h hasc
    obtain ⟨hx, hxs⟩ := List.pairwise_cons.1 hasc
    rw [Table.lookup_cons_eq]
    rcases List.mem_cons.1 h with rfl | h
    · rw [if_pos rfl]
    · rw [if_neg (Nat.ne_of_gt (hx e.1 (List.mem_map_of_mem h)))]
      exact ih h hxs

/-- The entries of a table are what it has at their keys. -/
theorem Table.mem_entries {β : Type} {t : Table β} {k : Nat} {b : β} : (k, b) ∈ t.entries ↔ t.find? k = some b := by
  constructor
  · exact t.find?_of_mem
  · intro h
    have hkey : k ∈ t.keys := (t.isSome_find?_iff k).1 (Option.isSome_of_eq_some h)
    obtain ⟨e, he, rfl⟩ := List.mem_map.1 hkey
    obtain rfl : e.2 = b := Option.some.inj ((t.find?_of_mem he).symm.trans h)
    exact he

/-- The entries of a vector are the weights of its terms. -/
theorem TermVector.mem_entries {α : Type} [Scalar α] {v : TermVector α} {t : TermId} {w : α} :
    (t, w) ∈ v.entries ↔ v.weight? t = some w :=
  Table.mem_entries

namespace Extraction

variable {α : Type} [Scalar α]

/-- The tally of a document whose terms are numbered by a lexicon. -/
def tallyOf (lex : Lexicon) (d : Document) : Tally := Tally.empty.addAll (d.terms.map lex.number)

/-- Counting the terms of a batch numbers all its terms by one lexicon. -/
theorem countTerms_spec (lex : Lexicon) (docs : List Document) :
    lex.Extends (countTerms lex docs).2 ∧ (∀ d ∈ docs, ∀ t ∈ d.terms, t ∈ (countTerms lex docs).2.terms) ∧
      (countTerms lex docs).1 = docs.map (tallyOf (countTerms lex docs).2) := by
  induction docs generalizing lex with
  | nil => exact ⟨Lexicon.Extends.refl lex, nofun, rfl⟩
  | cons d ds ih =>
    obtain ⟨he, ht, hn⟩ := lex.internAll_spec d.terms
    obtain ⟨he', hts, hns⟩ := ih (lex.internAll d.terms).2
    have hall : countTerms lex (d :: ds) =
        (Tally.empty.addAll (lex.internAll d.terms).1 :: (countTerms (lex.internAll d.terms).2 ds).1,
          (countTerms (lex.internAll d.terms).2 ds).2) := rfl
    rw [hall]
    refine ⟨he.trans he', ?_, ?_⟩
    · intro e hmem t hte
      rcases List.mem_cons.1 hmem with rfl | hmem
      · exact he'.mem (ht t hte)
      · exact hts e hmem t hte
    · have hnum : d.terms.map (countTerms (lex.internAll d.terms).2 ds).2.number = (lex.internAll d.terms).1 := by
        rw [hn]
        exact List.map_congr_left fun t hte => he'.number_eq (ht t hte)
      rw [List.map_cons, tallyOf, hnum, ← hns]

theorem count_countDocuments_from (counts : List Tally) (df : Tally) (j : Nat) :
    (counts.foldl (fun df c => df.addAll c.keys) df).count j = df.count j + counts.countP fun c => c.keys.contains j := by
  induction counts generalizing df with
  | nil => rfl
  | cons c cs ih =>
    have hc : c.keys.count j = if c.keys.contains j then 1 else 0 := by
      have hn : c.keys.Nodup := Ascending.nodup c.ascending
      rw [hn.count]
      simp
    rw [List.foldl_cons, ih, Tally.count_addAll, List.countP_cons, hc]
    omega

/-- The document count of a term is the number of documents whose tally has it. -/
theorem count_countDocuments (counts : List Tally) (j : Nat) :
    (countDocuments counts).count j = counts.countP fun c => c.keys.contains j := by
  unfold countDocuments
  rw [count_countDocuments_from]
  exact Nat.zero_add _

/-! ## The corpus of a batch -/

variable (e : Extraction α) (lex : Lexicon) (docs : List Document)

/-- In how many documents of a batch a term occurs. -/
def spread (term : String) : Nat := docs.countP fun d => d.terms.contains term

/-- A term of a document is left out: it is in more documents than the share allows, or its weight is no positive, finite
number. -/
def Drops (d : Document) (term : String) : Prop :=
  e.maxShare * (docs.length : α) < (spread docs term : α) ∨
    ¬(0 < e.weighting.weight (α := α) (d.terms.count term) (spread docs term) docs.length ∧
      Scalar.isFinite (e.weighting.weight (α := α) (d.terms.count term) (spread docs term) docs.length) = true)

/-- The lexicon after a batch. -/
def lexiconAfter : Lexicon := (countTerms lex docs).2

/-- The weighted terms of a document of a batch. -/
def pairsOf (d : Document) : List (TermId × α) :=
  (tallyOf (lexiconAfter lex docs) d).entries.filterMap
    (e.weigh docs.length (countDocuments (docs.map (tallyOf (lexiconAfter lex docs)))))

theorem extract_eq :
    extract e lex docs =
      (⟨(docs.map fun d => ⟨d.id, TermVector.ofPairs (pairsOf e lex docs d)⟩).toArray⟩, lexiconAfter lex docs) := by
  have hunfold : extract e lex docs =
      (⟨(docs.zipWith (fun d v => ⟨d.id, v⟩) ((countTerms lex docs).1.map fun c => TermVector.ofPairs
        (c.entries.filterMap (e.weigh docs.length (countDocuments (countTerms lex docs).1))))).toArray⟩,
        (countTerms lex docs).2) := rfl
  rw [hunfold, (countTerms_spec lex docs).2.2, List.map_map, List.zipWith_map_right, List.zipWith_self]
  rfl

theorem size_extract : (extract e lex docs).1.size = docs.length := by
  rw [extract_eq]
  simp [Corpus.size]

theorem id_extract {pos : Position} {d : Document} (h : docs[pos]? = some d) : (extract e lex docs).1.id pos = d.id := by
  rw [extract_eq]
  simp [Corpus.id, h]

theorem vector_extract {pos : Position} {d : Document} (h : docs[pos]? = some d) :
    (extract e lex docs).1.vector pos = TermVector.ofPairs (pairsOf e lex docs d) := by
  rw [extract_eq]
  simp [Corpus.vector, h]

/-! ## Documents without usable terms -/

variable {e lex docs}

theorem mem_lexiconAfter {d : Document} (hd : d ∈ docs) {t : String} (ht : t ∈ d.terms) :
    t ∈ (lexiconAfter lex docs).terms := (countTerms_spec lex docs).2.1 d hd t ht

theorem mem_map_number {d : Document} {t : String} (ht : t ∈ (lexiconAfter lex docs).terms) :
    (lexiconAfter lex docs).number t ∈ d.terms.map (lexiconAfter lex docs).number ↔ t ∈ d.terms := by
  rw [List.mem_map]
  constructor
  · rintro ⟨u, hu, he⟩
    exact Lexicon.number_injOn ht he.symm ▸ hu
  · intro h
    exact ⟨t, h, rfl⟩

/-- A tally counts a term as often as the document has it. -/
theorem count_tallyOf {d : Document} {t : String} (ht : t ∈ (lexiconAfter lex docs).terms) :
    (tallyOf (lexiconAfter lex docs) d).count ((lexiconAfter lex docs).number t) = d.terms.count t := by
  rw [tallyOf, Tally.count_tally, List.count, List.countP_map, List.count]
  refine List.countP_congr ?_
  intro u hu
  simp only [Function.comp_apply, beq_iff_eq]
  exact ⟨fun he => (Lexicon.number_injOn ht he.symm).symm, fun he => congrArg _ he⟩

/-- The document count of a term is its spread. -/
theorem count_spread {t : String} (ht : t ∈ (lexiconAfter lex docs).terms) :
    (countDocuments (docs.map (tallyOf (lexiconAfter lex docs)))).count ((lexiconAfter lex docs).number t) =
      spread docs t := by
  rw [count_countDocuments, List.countP_map, spread]
  refine List.countP_congr ?_
  intro d _
  simp only [Function.comp_apply, List.contains_iff_mem]
  rw [tallyOf, Tally.mem_keys_tally, mem_map_number ht]

/-- The weighted terms of a document are the numbers of its terms that are not too widespread. -/
theorem mem_pairsOf {d : Document} (hd : d ∈ docs) {i : TermId} {x : α} :
    (i, x) ∈ pairsOf e lex docs d ↔ ∃ t ∈ d.terms, (lexiconAfter lex docs).number t = i ∧
      ¬e.maxShare * (docs.length : α) < (spread docs t : α) ∧
      x = e.weighting.weight (d.terms.count t) (spread docs t) docs.length := by
  have hcount : ∀ t ∈ d.terms, ∀ n, (tallyOf (lexiconAfter lex docs) d).find? ((lexiconAfter lex docs).number t) =
      some n → n = d.terms.count t := by
    intro t ht n hn
    rw [← count_tallyOf (mem_lexiconAfter hd ht), Tally.count, hn]
    rfl
  have hweigh : ∀ t ∈ d.terms, ∀ n, e.weigh docs.length (countDocuments (docs.map (tallyOf (lexiconAfter lex docs))))
      ((lexiconAfter lex docs).number t, n) = some (i, x) ↔ (lexiconAfter lex docs).number t = i ∧
        ¬e.maxShare * (docs.length : α) < (spread docs t : α) ∧
        x = e.weighting.weight n (spread docs t) docs.length := by
    intro t ht n
    simp only [weigh, count_spread (mem_lexiconAfter hd ht)]
    split
    · rename_i hshare
      exact iff_of_false nofun fun h => h.2.1 hshare
    · rename_i hshare
      rw [Option.some.injEq, Prod.mk.injEq, and_iff_right hshare, eq_comm (a := x)]
  rw [pairsOf, List.mem_filterMap]
  constructor
  · rintro ⟨⟨j, n⟩, hentry, hw⟩
    have hkey : j ∈ d.terms.map (lexiconAfter lex docs).number :=
      (Tally.mem_keys_tally _ j).1 (List.mem_map_of_mem hentry)
    obtain ⟨t, ht, rfl⟩ := List.mem_map.1 hkey
    obtain ⟨hi, hshare, hx⟩ := (hweigh t ht n).1 hw
    rw [hcount t ht n (Table.find?_of_mem _ hentry)] at hx
    exact ⟨t, ht, hi, hshare, hx⟩
  · rintro ⟨t, ht, hi, hshare, hx⟩
    have hkey : (lexiconAfter lex docs).number t ∈ (tallyOf (lexiconAfter lex docs) d).keys :=
      (Tally.mem_keys_tally _ _).2 (List.mem_map_of_mem ht)
    obtain ⟨⟨j, n⟩, hentry, hj⟩ := List.mem_map.1 hkey
    obtain rfl : j = (lexiconAfter lex docs).number t := hj
    have hn := hcount t ht n (Table.find?_of_mem _ hentry)
    exact ⟨(_, n), hentry, (hweigh t ht n).2 ⟨hi, hshare, hn ▸ hx⟩⟩

theorem nodup_keys_pairsOf (d : Document) : ((pairsOf e lex docs d).map Prod.fst).Nodup := by
  refine List.Nodup.sublist (map_fst_filterMap_sublist ?_ _) (Ascending.nodup (tallyOf _ d).ascending)
  intro x p hx
  simp only [weigh] at hx
  split at hx
  · nomatch hx
  · exact congrArg Prod.fst (Option.some.inj hx).symm

/-- The vector of a document holds its weighted terms of positive, finite weight. -/
theorem weight?_ofPairs_pairsOf (d : Document) {i : TermId} {w : α} :
    (TermVector.ofPairs (pairsOf e lex docs d)).weight? i = some w ↔
      ∃ x, (i, x) ∈ pairsOf e lex docs d ∧ w = 0 + x ∧ 0 < w ∧ Scalar.isFinite w = true := by
  rw [TermVector.weight?_ofPairs, Option.filter_eq_some_iff, Bool.and_eq_true, decide_eq_true_iff]
  have hsummed : ∀ {x}, (i, x) ∈ pairsOf e lex docs d →
      TermVector.summed (pairsOf e lex docs d) i = some (0 + x) := by
    intro x hp
    rw [TermVector.summed, filter_key_eq_singleton (nodup_keys_pairsOf d) hp]
    rfl
  constructor
  · rintro ⟨hsum, hadmitted⟩
    cases hf : (pairsOf e lex docs d).filter fun p => p.1 = i with
    | nil =>
      rw [TermVector.summed, hf] at hsum
      nomatch hsum
    | cons p rest =>
      have hmem : p ∈ (pairsOf e lex docs d).filter fun p => p.1 = i := hf ▸ List.mem_cons_self
      obtain ⟨hp, hi⟩ := List.mem_filter.1 hmem
      obtain rfl := of_decide_eq_true hi
      rw [hsummed hp] at hsum
      exact ⟨p.2, hp, (Option.some.inj hsum).symm, hadmitted⟩
  · rintro ⟨x, hp, rfl, hadmitted⟩
    exact ⟨hsummed hp, hadmitted⟩

/-- A term of a vector is the number of a term of its document. -/
theorem exists_of_contains {pos : Position} {d : Document} (h : docs[pos]? = some d) {i : TermId}
    (hi : ((extract e lex docs).1.vector pos).contains i = true) :
    ∃ t ∈ d.terms, (lexiconAfter lex docs).number t = i := by
  rw [vector_extract e lex docs h, TermVector.contains, Option.isSome_iff_exists] at hi
  obtain ⟨w, hw⟩ := hi
  obtain ⟨x, hp, -⟩ := (weight?_ofPairs_pairsOf d).1 hw
  obtain ⟨t, ht, hnumber, -⟩ := (mem_pairsOf (List.mem_of_getElem? h)).1 hp
  exact ⟨t, ht, hnumber⟩

/-- A document of which every term is left out has an empty vector. -/
theorem isMalformed_of_dropped [Scalar.Rounded α] {pos : Position} {d : Document} (h : docs[pos]? = some d)
    (hdrop : ∀ t ∈ d.terms, Drops e docs d t) : (extract e lex docs).1.isMalformed pos = true := by
  rw [Corpus.isMalformed, vector_extract e lex docs h, TermVector.isEmpty_iff]
  refine List.eq_nil_iff_forall_not_mem.2 ?_
  intro i hi
  rw [← TermVector.contains_iff, TermVector.contains, Option.isSome_iff_exists] at hi
  obtain ⟨w, hw⟩ := hi
  obtain ⟨x, hp, rfl, hpos, hfinite⟩ := (weight?_ofPairs_pairsOf d).1 hw
  obtain ⟨t, ht, -, hshare, hweight⟩ := (mem_pairsOf (List.mem_of_getElem? h)).1 hp
  rcases hdrop t ht with hdrop | hdrop
  · exact hshare hdrop
  · rw [← hweight] at hdrop
    exact hdrop ⟨Scalar.Rounded.pos_of_zero_add hpos, Scalar.Rounded.isFinite_of_zero_add hfinite⟩

end Extraction

end ToleranceClustering
