import ToleranceClustering.Proofs.AscendingSets
import ToleranceClustering.Proofs.Membership

/-!
# Postings

Inverting the documents of a corpus finds, for each term of its vocabulary, exactly the positions of the documents that
hold it, in ascending order (`postings_eq_holders`). A term outside the vocabulary is in no document.
-/

namespace ToleranceClustering

/-! ## Inverting documents -/

namespace Incidence

/-- The postings after a document at `pos` was entered: its terms have `pos` in front. -/
def enter (pos : Nat) (postings : Array (List Nat)) (doc : List Nat) : Array (List Nat) :=
  doc.foldl (fun postings i => postings.modify i (pos :: ·)) postings

theorem size_enter (pos : Nat) (doc : List Nat) (postings : Array (List Nat)) :
    (enter pos postings doc).size = postings.size := by
  induction doc generalizing postings with
  | nil => rfl
  | cons i is ih =>
    have h : enter pos postings (i :: is) = enter pos (postings.modify i (pos :: ·)) is := rfl
    rw [h, ih, Array.size_modify]

theorem getElem?_enter {pos : Nat} {doc : List Nat} (h : doc.Nodup) (postings : Array (List Nat)) (i : Nat) :
    (enter pos postings doc)[i]? = if i ∈ doc then postings[i]?.map (pos :: ·) else postings[i]? := by
  induction doc generalizing postings with
  | nil => rfl
  | cons j js ih =>
    obtain ⟨hj, hjs⟩ := List.nodup_cons.1 h
    have he : enter pos postings (j :: js) = enter pos (postings.modify j (pos :: ·)) js := rfl
    rw [he, ih hjs, Array.getElem?_modify]
    by_cases hij : i = j
    · subst hij
      simp [hj]
    · have hji : ¬j = i := fun e => hij e.symm
      simp [hij, hji]

theorem invert_cons (terms pos : Nat) (doc : List Nat) (docs : List (List Nat)) :
    invert terms pos (doc :: docs) = enter pos (invert terms (pos + 1) docs) doc := rfl

theorem size_invert (terms pos : Nat) (docs : List (List Nat)) : (invert terms pos docs).size = terms := by
  induction docs generalizing pos with
  | nil => exact Array.size_replicate
  | cons doc docs ih => rw [invert_cons, size_enter, ih]

/-- The postings of a term, one document after the other. -/
theorem getD_invert_cons {terms pos i : Nat} {doc : List Nat} {docs : List (List Nat)} (h : doc.Nodup)
    (hi : i < terms) :
    (invert terms pos (doc :: docs)).getD i [] =
      if i ∈ doc then pos :: (invert terms (pos + 1) docs).getD i [] else (invert terms (pos + 1) docs).getD i [] := by
  have hsome : (invert terms (pos + 1) docs)[i]? = some ((invert terms (pos + 1) docs).getD i []) := by
    rw [Array.getD_eq_getD_getElem?]
    have hlt : i < (invert terms (pos + 1) docs).size := by rwa [size_invert]
    rw [Array.getElem?_eq_getElem hlt, Option.getD_some]
  rw [Array.getD_eq_getD_getElem?, invert_cons, getElem?_enter h, hsome]
  split <;> rfl

/-- The postings of a term hold the places of the documents that hold it. -/
theorem mem_getD_invert {terms i p : Nat} (hi : i < terms) {docs : List (List Nat)} (h : ∀ doc ∈ docs, doc.Nodup)
    (pos : Nat) : p ∈ (invert terms pos docs).getD i [] ↔ ∃ n doc, docs[n]? = some doc ∧ p = pos + n ∧ i ∈ doc := by
  induction docs generalizing pos with
  | nil => simp [invert, Array.getD_eq_getD_getElem?, hi]
  | cons doc docs ih =>
    obtain ⟨hd, hds⟩ := List.forall_mem_cons.1 h
    have tail : p ∈ (invert terms (pos + 1) docs).getD i [] ↔
        ∃ n d, (doc :: docs)[n + 1]? = some d ∧ p = pos + (n + 1) ∧ i ∈ d := by
      rw [ih hds (pos + 1)]
      simp only [List.getElem?_cons_succ, Nat.add_assoc, Nat.add_comm 1]
    rw [getD_invert_cons hd hi]
    constructor
    · intro hp
      split at hp
      · rename_i hmem
        rcases List.mem_cons.1 hp with rfl | hp
        · exact ⟨0, doc, rfl, rfl, hmem⟩
        · obtain ⟨n, d, hn⟩ := tail.1 hp
          exact ⟨n + 1, d, hn⟩
      · obtain ⟨n, d, hn⟩ := tail.1 hp
        exact ⟨n + 1, d, hn⟩
    · rintro ⟨n, d, hn, rfl, hmem⟩
      cases n with
      | zero =>
        obtain rfl : doc = d := Option.some.inj hn
        rw [if_pos hmem]
        exact List.mem_cons_self
      | succ n =>
        have hp := tail.2 ⟨n, d, hn, rfl, hmem⟩
        split
        · exact List.mem_cons_of_mem _ hp
        · exact hp

/-- The postings of a term are ascending, since the documents are entered from the last to the first. -/
theorem ascending_getD_invert {terms i : Nat} (hi : i < terms) {docs : List (List Nat)} (h : ∀ doc ∈ docs, doc.Nodup)
    (pos : Nat) : Ascending ((invert terms pos docs).getD i []) := by
  induction docs generalizing pos with
  | nil => simp [invert, Array.getD_eq_getD_getElem?, hi, Ascending]
  | cons doc docs ih =>
    obtain ⟨hd, hds⟩ := List.forall_mem_cons.1 h
    rw [getD_invert_cons hd hi]
    split
    · refine List.pairwise_cons.2 ⟨?_, ih hds (pos + 1)⟩
      intro p hp
      obtain ⟨n, d, -, rfl, -⟩ := (mem_getD_invert hi hds (pos + 1)).1 hp
      omega
    · exact ih hds (pos + 1)

end Incidence

/-! ## The vocabulary -/

namespace Corpus

variable {α : Type} [Scalar α] (c : Corpus α)

theorem getElem?_vectors (pos : Position) : c.vectors[pos]? = if pos < c.size then some (c.vector pos) else none := by
  unfold vectors vector size
  rw [List.getElem?_map, Array.getElem?_toList]
  split
  · rename_i h
    rw [Array.getElem?_eq_getElem h]
    rfl
  · rename_i h
    rw [Array.getElem?_eq_none (Nat.le_of_not_lt h)]
    rfl

theorem mem_vectors {v : TermVector α} : v ∈ c.vectors ↔ ∃ pos < c.size, c.vector pos = v := by
  rw [List.mem_iff_getElem?]
  refine exists_congr ?_
  intro pos
  rw [getElem?_vectors]
  split
  · rename_i h
    simp [h]
  · rename_i h
    simp [h]

theorem mem_foldl_union (vs : List (TermVector α)) (seen : List TermId) (t : TermId) :
    t ∈ vs.foldl (fun seen v => Ascending.union v.terms seen) seen ↔ t ∈ seen ∨ ∃ v ∈ vs, t ∈ v.terms := by
  induction vs generalizing seen with
  | nil => simp
  | cons v vs ih =>
    rw [List.foldl_cons, ih, Ascending.mem_union]
    simp only [List.mem_cons, exists_eq_or_imp]
    exact ⟨fun h => h.elim (fun h => h.elim (fun h => Or.inr (Or.inl h)) Or.inl) (fun h => Or.inr (Or.inr h)),
      fun h => h.elim (fun h => Or.inl (Or.inr h)) (fun h => h.elim (fun h => Or.inl (Or.inl h)) Or.inr)⟩

theorem ascending_foldl_union (vs : List (TermVector α)) {seen : List TermId} (h : Ascending seen) :
    Ascending (vs.foldl (fun seen v => Ascending.union v.terms seen) seen) := by
  induction vs generalizing seen with
  | nil => exact h
  | cons v vs ih => exact ih (Ascending.ascending_union h)

/-- The vocabulary holds the terms of the documents. -/
theorem mem_vocabulary {t : TermId} : t ∈ c.vocabulary ↔ ∃ pos < c.size, (c.vector pos).contains t = true := by
  unfold vocabulary
  rw [mem_foldl_union]
  simp only [List.not_mem_nil, false_or, mem_vectors, TermVector.contains_iff]
  constructor
  · rintro ⟨_, ⟨pos, hpos, rfl⟩, ht⟩
    exact ⟨pos, hpos, ht⟩
  · rintro ⟨pos, hpos, ht⟩
    exact ⟨_, ⟨pos, hpos, rfl⟩, ht⟩

theorem ascending_vocabulary : Ascending c.vocabulary := ascending_foldl_union c.vectors List.Pairwise.nil

theorem mem_holders {t : TermId} {pos : Position} :
    pos ∈ c.holders t ↔ pos < c.size ∧ (c.vector pos).contains t = true := by
  rw [holders, List.mem_filter, List.mem_range]

theorem ascending_holders (t : TermId) : Ascending (c.holders t) := (Ascending.ascending_range c.size).filter _

/-- Outside the corpus no document holds anything. -/
theorem lt_size_of_contains {pos : Position} {t : TermId} (h : (c.vector pos).contains t = true) : pos < c.size := by
  by_contra hge
  have hnone : c.documents[pos]? = none := Array.getElem?_eq_none (Nat.le_of_not_lt hge)
  rw [vector, hnone] at h
  nomatch h

end Corpus

/-! ## The postings of a space -/

/-- An element of an ascending list is found at its place. -/
theorem Ascending.idxOf?_of_mem {xs : List Nat} (h : Ascending xs) {x : Nat} (hx : x ∈ xs) :
    xs.idxOf? x = some (xs.idxOf x) := by
  have hlt := List.idxOf_lt_length_of_mem hx
  rw [List.idxOf?_eq_some_iff]
  refine ⟨hlt, List.getElem_idxOf hlt, ?_⟩
  intro j hj he
  have hasc := List.pairwise_iff_getElem.1 h j _ (Nat.lt_trans hj hlt) hlt hj
  rw [he, List.getElem_idxOf hlt] at hasc
  exact Nat.lt_irrefl x hasc

namespace ToleranceSpace

variable {α : Type} [Scalar α] {c : Corpus α} {τ : α} {f : Measure α} {s : ToleranceSpace α}

/-- What a space built from a corpus takes over from it. -/
theorem fields_of_build (h : build c τ f = .ok s) :
    s.terms = c.vocabulary.toArray ∧
      s.incidence.postings =
        Incidence.invert c.vocabulary.length 0 (c.vectors.map fun v => v.terms.map c.vocabulary.idxOf) := by
  unfold build at h
  cases hu : Failure.unless (Scalar.withinAbove 0 1 τ) "tolerance_threshold" "must be in (0, 1]" with
  | error e =>
    rw [hu] at h
    nomatch h
  | ok u =>
    rw [hu] at h
    obtain rfl := (Except.ok.inj h).symm
    exact ⟨rfl, rfl⟩

theorem index?_of_build (h : build c τ f = .ok s) (t : TermId) : s.index? t = c.vocabulary.idxOf? t := by
  rw [index?, (fields_of_build h).1, List.idxOf?_toArray]

theorem index?_of_mem (h : build c τ f = .ok s) {t : TermId} (ht : t ∈ c.vocabulary) :
    s.index? t = some (c.vocabulary.idxOf t) := by
  rw [index?_of_build h]
  exact c.ascending_vocabulary.idxOf?_of_mem ht

theorem index?_of_not_mem (h : build c τ f = .ok s) {t : TermId} (ht : t ∉ c.vocabulary) : s.index? t = none := by
  rw [index?_of_build h]
  exact List.idxOf?_eq_none_iff.2 ht

/-- The terms of the documents, numbered by their place in the vocabulary. -/
def numbered (c : Corpus α) : List (List Nat) := c.vectors.map fun v => v.terms.map c.vocabulary.idxOf

theorem mem_vocabulary_of_mem_terms {v : TermVector α} (hv : v ∈ c.vectors) {t : TermId} (ht : t ∈ v.terms) :
    t ∈ c.vocabulary := by
  obtain ⟨pos, hpos, rfl⟩ := c.mem_vectors.1 hv
  exact c.mem_vocabulary.2 ⟨pos, hpos, (TermVector.contains_iff _ t).2 ht⟩

/-- No document has a number twice. -/
theorem nodup_numbered (c : Corpus α) : ∀ doc ∈ numbered c, doc.Nodup := by
  intro doc hdoc
  obtain ⟨v, hv, rfl⟩ := List.mem_map.1 hdoc
  refine List.Nodup.map_on ?_ v.ascending_terms.nodup
  intro t ht u _ he
  exact (List.idxOf_inj (mem_vocabulary_of_mem_terms hv ht)).1 he

/-- The postings of a term are the positions of the documents that hold it. -/
theorem postings_eq_holders (h : build c τ f = .ok s) (t : TermId) : s.postings t = c.holders t := by
  by_cases ht : t ∈ c.vocabulary
  · have hlt := List.idxOf_lt_length_of_mem ht
    have hp : s.postings t = (Incidence.invert c.vocabulary.length 0 (numbered c)).getD (c.vocabulary.idxOf t) [] := by
      rw [postings, index?_of_mem h ht]
      exact congrArg (fun ps => ps.getD (c.vocabulary.idxOf t) []) (fields_of_build h).2
    rw [hp]
    refine Ascending.ext (Incidence.ascending_getD_invert hlt (nodup_numbered c) 0) (c.ascending_holders t) ?_
    intro pos
    rw [Incidence.mem_getD_invert hlt (nodup_numbered c), c.mem_holders, TermVector.contains_iff]
    constructor
    · rintro ⟨n, doc, hdoc, rfl, hmem⟩
      rw [numbered, List.getElem?_map, c.getElem?_vectors] at hdoc
      split at hdoc
      · rename_i hn
        obtain rfl := Option.some.inj hdoc
        obtain ⟨u, hu, he⟩ := List.mem_map.1 hmem
        rw [Nat.zero_add]
        obtain rfl := (List.idxOf_inj ht).1 he.symm
        exact ⟨hn, hu⟩
      · nomatch hdoc
    · rintro ⟨hpos, hmem⟩
      refine ⟨pos, (c.vector pos).terms.map c.vocabulary.idxOf, ?_, (Nat.zero_add pos).symm, List.mem_map_of_mem hmem⟩
      rw [numbered, List.getElem?_map, c.getElem?_vectors, if_pos hpos]
      rfl
  · rw [postings, index?_of_not_mem h ht]
    symm
    apply List.eq_nil_iff_forall_not_mem.2
    intro pos hpos
    obtain ⟨hlt, hmem⟩ := c.mem_holders.1 hpos
    exact ht (c.mem_vocabulary.2 ⟨pos, hlt, hmem⟩)

end ToleranceSpace

end ToleranceClustering
