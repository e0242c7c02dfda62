import ToleranceClustering.Proofs.ClusterRun
import ToleranceClustering.Proofs.SharedCounts

/-!
# Tolerant terms

A space numbers its terms by their place in the vocabulary and keeps, for each, a row of later terms. Asked for two terms,
it finds them tolerant exactly when they are so pair by pair over the vocabulary (`tolerant_iff`), keeps their similarity
only then (`similarity?_eq_some`), and counts the documents that hold both (`cooccurrence_eq_jointHolders`).
-/

namespace ToleranceClustering

/-! ## The plain definition -/

namespace Corpus

variable {α : Type} [Scalar α] (c : Corpus α)

theorem jointHolders_comm (a b : TermId) : c.jointHolders a b = c.jointHolders b a := by
  unfold jointHolders
  simp only [Bool.and_comm]

/-- The documents that hold both terms are those of the first that hold the second. -/
theorem jointHolders_eq_countP (a b : TermId) :
    c.jointHolders a b = (c.holders a).countP fun pos => (c.vector pos).contains b := by
  rw [jointHolders, holders, List.countP_filter, List.countP_eq_length_filter]
  simp only [Bool.and_comm]

theorem jointHolders_eq_zero {a : TermId} (h : a ∉ c.vocabulary) (b : TermId) : c.jointHolders a b = 0 := by
  rw [jointHolders_eq_countP]
  refine List.countP_eq_zero.2 ?_
  intro pos hpos _
  obtain ⟨hlt, hmem⟩ := c.mem_holders.1 hpos
  exact h (c.mem_vocabulary.2 ⟨pos, hlt, hmem⟩)

/-- Terms that occur together are terms of the vocabulary. -/
theorem mem_vocabulary_of_jointHolders {a b : TermId} (h : 0 < c.jointHolders a b) :
    a ∈ c.vocabulary ∧ b ∈ c.vocabulary := by
  constructor
  · by_contra hno
    rw [c.jointHolders_eq_zero hno] at h
    exact Nat.lt_irrefl 0 h
  · by_contra hno
    rw [c.jointHolders_comm, c.jointHolders_eq_zero hno] at h
    exact Nat.lt_irrefl 0 h

theorem similarity_of_lt (f : Measure α) {a b : TermId} (h : a < b) :
    c.similarity f a b = f (c.jointHolders a b) (c.holders a).length (c.holders b).length := if_pos (Nat.le_of_lt h)

theorem similarity_comm (f : Measure α) (a b : TermId) : c.similarity f a b = c.similarity f b a := by
  unfold similarity
  rw [c.jointHolders_comm b a]
  rcases Nat.lt_trichotomy a b with h | rfl | h
  · rw [if_pos (Nat.le_of_lt h), if_neg (Nat.not_le.2 h)]
  · rfl
  · rw [if_neg (Nat.not_le.2 h), if_pos (Nat.le_of_lt h)]

theorem Tolerant.symm {c : Corpus α} {τ : α} {f : Measure α} {a b : TermId} (h : c.Tolerant τ f a b) :
    c.Tolerant τ f b a := by
  rcases h with ⟨rfl, ha⟩ | ⟨hne, hpos, hτ⟩
  · exact Or.inl ⟨rfl, ha⟩
  · rw [c.jointHolders_comm] at hpos
    rw [c.similarity_comm] at hτ
    exact Or.inr ⟨hne.symm, hpos, hτ⟩

end Corpus

/-! ## Local numbers -/

namespace Ascending

/-- Places in an ascending list are ordered as the elements are. -/
theorem idxOf_lt_idxOf {xs : List Nat} (h : Ascending xs) {a b : Nat} (ha : a ∈ xs) (hb : b ∈ xs) :
    xs.idxOf a < xs.idxOf b ↔ a < b := by
  have hmono : ∀ {x y : Nat}, x ∈ xs → y ∈ xs → xs.idxOf x < xs.idxOf y → x < y := by
    intro x y hx hy hlt
    have hp := List.pairwise_iff_getElem.1 h _ _ (List.idxOf_lt_length_of_mem hx) (List.idxOf_lt_length_of_mem hy) hlt
    rwa [List.getElem_idxOf, List.getElem_idxOf] at hp
  refine ⟨hmono ha hb, ?_⟩
  intro hlt
  rcases Nat.lt_trichotomy (xs.idxOf a) (xs.idxOf b) with h' | h' | h'
  · exact h'
  · rw [(List.idxOf_inj ha).1 h'] at hlt
    exact absurd hlt (Nat.lt_irrefl b)
  · exact absurd (hmono hb ha h') (Nat.lt_asymm hlt)

end Ascending

namespace Incidence

theorem termsOf_ofDocuments (terms : Nat) (docs : List (List Nat)) (pos : Nat) :
    (ofDocuments terms docs).termsOf pos = docs[pos]?.getD [] := by
  rw [termsOf, ofDocuments, Array.getD_eq_getD_getElem?, List.getElem?_toArray]

/-- Documents that hold each of their terms once, all of them numbered, make a proper incidence. -/
theorem proper_ofDocuments {terms : Nat} {docs : List (List Nat)} (hnodup : ∀ doc ∈ docs, doc.Nodup)
    (hbound : ∀ doc ∈ docs, ∀ j ∈ doc, j < terms) : (ofDocuments terms docs).Proper := by
  have hcases : ∀ pos, (ofDocuments terms docs).termsOf pos = [] ∨ (ofDocuments terms docs).termsOf pos ∈ docs := by
    intro pos
    rw [termsOf_ofDocuments]
    cases hd : docs[pos]? with
    | none => exact Or.inl rfl
    | some doc => exact Or.inr (List.mem_of_getElem? hd)
  constructor
  · intro pos
    rcases hcases pos with h | h
    · rw [h]
      exact List.nodup_nil
    · exact hnodup _ h
  · intro pos j hj
    rw [termCount, ofDocuments, size_invert]
    rcases hcases pos with h | h
    · rw [h] at hj
      exact absurd hj List.not_mem_nil
    · exact hbound _ h j hj

end Incidence

namespace ToleranceSpace

variable {α : Type} [Scalar α] {c : Corpus α} {τ : α} {f : Measure α} {s : ToleranceSpace α}

/-- A space that was built is made of the vocabulary, the incidence, and what is found through it. -/
theorem eq_of_build (h : build c τ f = .ok s) :
    s = { threshold := τ
          terms := c.vocabulary.toArray
          incidence := Incidence.ofDocuments c.vocabulary.length (numbered c)
          rows := ((Incidence.ofDocuments c.vocabulary.length (numbered c)).rows τ f).toArray
          classes := (classLists ((Incidence.ofDocuments c.vocabulary.length (numbered c)).rows τ f)).toArray } :=
  (Except.ok.inj (Failure.of_unless_bind h).2).symm

theorem incidence_of_build (h : build c τ f = .ok s) :
    s.incidence = Incidence.ofDocuments c.vocabulary.length (numbered c) := by
  rw [eq_of_build h]

theorem termCount_incidence (h : build c τ f = .ok s) : s.incidence.termCount = c.vocabulary.length := by
  rw [incidence_of_build h, Incidence.termCount, Incidence.ofDocuments, Incidence.size_invert]

theorem lt_of_mem_numbered (c : Corpus α) : ∀ doc ∈ numbered c, ∀ i ∈ doc, i < c.vocabulary.length := by
  intro doc hdoc i hi
  obtain ⟨v, hv, rfl⟩ := List.mem_map.1 hdoc
  obtain ⟨t, ht, rfl⟩ := List.mem_map.1 hi
  exact List.idxOf_lt_length_of_mem (mem_vocabulary_of_mem_terms hv ht)

theorem proper_incidence (h : build c τ f = .ok s) : s.incidence.Proper := by
  rw [incidence_of_build h]
  exact Incidence.proper_ofDocuments (nodup_numbered c) (lt_of_mem_numbered c)

theorem rows_of_build (h : build c τ f = .ok s) :
    s.rows.toList = (List.range c.vocabulary.length).map (s.incidence.linkedRow τ f) := by
  have hrows : s.rows.toList = s.incidence.rows τ f := by rw [eq_of_build h]
  rw [hrows, Incidence.rows_eq (proper_incidence h), termCount_incidence h]

theorem getD_rows (h : build c τ f = .ok s) {i : Nat} (hi : i < c.vocabulary.length) :
    s.rows.getD i [] = s.incidence.linkedRow τ f i := by
  rw [Array.getD_eq_getD_getElem?, ← Array.getElem?_toList, rows_of_build h, List.getElem?_map,
    List.getElem?_range hi]
  rfl

theorem termAt_idxOf (h : build c τ f = .ok s) {t : TermId} (ht : t ∈ c.vocabulary) :
    s.termAt (c.vocabulary.idxOf t) = t := by
  rw [termAt, (fields_of_build h).1, Array.getD_eq_getD_getElem?, List.getElem?_toArray,
    List.getElem?_eq_getElem (List.idxOf_lt_length_of_mem ht), List.getElem_idxOf, Option.getD_some]

theorem termAt_mem (h : build c τ f = .ok s) {i : Nat} (hi : i < c.vocabulary.length) :
    s.termAt i ∈ c.vocabulary ∧ c.vocabulary.idxOf (s.termAt i) = i := by
  have hterm : s.termAt i = c.vocabulary[i] := by
    rw [termAt, (fields_of_build h).1, Array.getD_eq_getD_getElem?, List.getElem?_toArray, List.getElem?_eq_getElem hi,
      Option.getD_some]
  rw [hterm]
  exact ⟨List.getElem_mem hi, c.ascending_vocabulary.nodup.idxOf_getElem i hi⟩

/-! ## Counts -/

theorem postingsOf_idxOf (h : build c τ f = .ok s) {t : TermId} (ht : t ∈ c.vocabulary) :
    s.incidence.postingsOf (c.vocabulary.idxOf t) = c.holders t := by
  rw [← postings_eq_holders h t, postings, index?_of_mem h ht]

theorem termsOf_of_build (h : build c τ f = .ok s) {pos : Position} (hpos : pos < c.size) :
    s.incidence.termsOf pos = (c.vector pos).terms.map c.vocabulary.idxOf := by
  rw [incidence_of_build h, Incidence.termsOf, Incidence.ofDocuments, Array.getD_eq_getD_getElem?,
    List.getElem?_toArray, numbered, List.getElem?_map, c.getElem?_vectors, if_pos hpos]
  rfl

/-- What is counted on the way through the postings of a term is the number of documents shared. -/
theorem shared_idxOf (h : build c τ f = .ok s) {a b : TermId} (ha : a ∈ c.vocabulary) (hb : b ∈ c.vocabulary) :
    s.incidence.shared (c.vocabulary.idxOf a) (c.vocabulary.idxOf b) = c.jointHolders a b := by
  rw [Incidence.shared, postingsOf_idxOf h ha, c.jointHolders_eq_countP]
  refine List.countP_congr ?_
  intro pos hpos
  have hlt := (c.mem_holders.1 hpos).1
  rw [termsOf_of_build h hlt, List.contains_iff_mem, TermVector.contains_iff, List.mem_map]
  constructor
  · rintro ⟨t, ht, he⟩
    exact (List.idxOf_inj hb).1 he.symm ▸ ht
  · intro hmem
    exact ⟨b, hmem, rfl⟩

/-- The two posting lists of two terms have the shared documents in common. -/
theorem cooccurrence_eq_jointHolders (h : build c τ f = .ok s) (a b : TermId) :
    s.cooccurrence a b = c.jointHolders a b := by
  unfold cooccurrence
  by_cases ha : a ∈ c.vocabulary
  · by_cases hb : b ∈ c.vocabulary
    · rw [index?_of_mem h ha, index?_of_mem h hb]
      show Ascending.sharedCount _ _ = _
      rw [postingsOf_idxOf h ha, postingsOf_idxOf h hb,
        Ascending.sharedCount_eq_countP (c.ascending_holders a) (c.ascending_holders b), c.jointHolders_eq_countP]
      refine List.countP_congr ?_
      intro pos hpos
      rw [List.contains_iff_mem, c.mem_holders]
      exact and_iff_right (c.mem_holders.1 hpos).1
    · rw [index?_of_not_mem h hb, c.jointHolders_comm, c.jointHolders_eq_zero hb]
      cases s.index? a <;> rfl
  · rw [index?_of_not_mem h ha, c.jointHolders_eq_zero ha]

/-! ## The four ways to ask -/

/-- The link of two terms of the vocabulary is their similarity, where they tolerate each other and the first is the
smaller. -/
theorem link?_idxOf (h : build c τ f = .ok s) {a b : TermId} (ha : a ∈ c.vocabulary) (hb : b ∈ c.vocabulary) (x : α) :
    s.incidence.link? τ f (c.vocabulary.idxOf a) (c.vocabulary.idxOf b) = some x ↔
      a < b ∧ c.Tolerant τ f a b ∧ x = c.similarity f a b := by
  rw [Incidence.link?_eq_some, c.ascending_vocabulary.idxOf_lt_idxOf ha hb, shared_idxOf h ha hb, Incidence.frequency,
    Incidence.frequency, postingsOf_idxOf h ha, postingsOf_idxOf h hb]
  refine and_congr_right ?_
  intro hlt
  rw [← c.similarity_of_lt f hlt]
  constructor
  · rintro ⟨hpos, rfl, hτ⟩
    exact ⟨Or.inr ⟨Nat.ne_of_lt hlt, hpos, hτ⟩, rfl⟩
  · rintro ⟨⟨rfl, -⟩ | ⟨-, hpos, hτ⟩, rfl⟩
    · exact absurd hlt (Nat.lt_irrefl a)
    · exact ⟨hpos, rfl, hτ⟩

/-- What the rows hold for two local terms, in the row of the earlier one. -/
def stored {β : Type} (rows : Array (List (Nat × β))) (i j : Nat) : Option β :=
  (rows.getD (Nat.min i j) []).lookup (Nat.max i j)

theorem stored_comm {β : Type} (rows : Array (List (Nat × β))) (i j : Nat) : stored rows i j = stored rows j i := by
  have hmin : Nat.min i j = Nat.min j i := Nat.min_comm i j
  have hmax : Nat.max i j = Nat.max j i := Nat.max_comm i j
  rw [stored, hmin, hmax, stored]

theorem stored_of_le {β : Type} (rows : Array (List (Nat × β))) {i j : Nat} (h : i ≤ j) :
    stored rows i j = (rows.getD i []).lookup j := by
  have hmin : Nat.min i j = i := Nat.min_eq_left h
  have hmax : Nat.max i j = j := Nat.max_eq_right h
  rw [stored, hmin, hmax]

/-- The rows hold a similarity for two terms of the vocabulary exactly where they tolerate each other. -/
theorem stored_idxOf (h : build c τ f = .ok s) {a b : TermId} (ha : a ∈ c.vocabulary) (hb : b ∈ c.vocabulary) (x : α) :
    stored s.rows (c.vocabulary.idxOf a) (c.vocabulary.idxOf b) = some x ↔
      a ≠ b ∧ c.Tolerant τ f a b ∧ x = c.similarity f a b := by
  have hordered : ∀ {t u : TermId}, t ∈ c.vocabulary → u ∈ c.vocabulary →
      c.vocabulary.idxOf t ≤ c.vocabulary.idxOf u →
      (stored s.rows (c.vocabulary.idxOf t) (c.vocabulary.idxOf u) = some x ↔
        t < u ∧ c.Tolerant τ f t u ∧ x = c.similarity f t u) := by
    intro t u ht hu hle
    rw [stored_of_le _ hle, getD_rows h (List.idxOf_lt_length_of_mem ht),
      Incidence.lookup_linkedRow (proper_incidence h), link?_idxOf h ht hu]
  rcases Nat.lt_trichotomy a b with hab | rfl | hab
  · rw [hordered ha hb (Nat.le_of_lt ((c.ascending_vocabulary.idxOf_lt_idxOf ha hb).2 hab))]
    exact and_congr_left fun _ => iff_of_true hab (Nat.ne_of_lt hab)
  · rw [hordered ha ha (Nat.le_refl _)]
    exact and_congr_left fun _ => iff_of_false (Nat.lt_irrefl a) fun hne => hne rfl
  · rw [stored_comm, hordered hb ha (Nat.le_of_lt ((c.ascending_vocabulary.idxOf_lt_idxOf hb ha).2 hab)),
      c.similarity_comm]
    exact and_congr (iff_of_true hab (Nat.ne_of_gt hab)) (and_congr_left fun _ => ⟨.symm, .symm⟩)

theorem tolerant_of_not_mem (h : build c τ f = .ok s) {a b : TermId} (hno : ¬(a ∈ c.vocabulary ∧ b ∈ c.vocabulary)) :
    s.tolerant a b = false ∧ s.similarity? a b = none := by
  unfold tolerant similarity?
  by_cases ha : a ∈ c.vocabulary
  · have hb : b ∉ c.vocabulary := fun hb => hno ⟨ha, hb⟩
    rw [index?_of_mem h ha, index?_of_not_mem h hb]
    exact ⟨rfl, rfl⟩
  · rw [index?_of_not_mem h ha]
    exact ⟨rfl, rfl⟩

theorem tolerant_of_mem (h : build c τ f = .ok s) {a b : TermId} (ha : a ∈ c.vocabulary) (hb : b ∈ c.vocabulary) :
    s.tolerant a b = (c.vocabulary.idxOf a == c.vocabulary.idxOf b ||
      (stored s.rows (c.vocabulary.idxOf a) (c.vocabulary.idxOf b)).isSome) := by
  rw [tolerant, index?_of_mem h ha, index?_of_mem h hb]
  rfl

theorem similarity?_of_mem (h : build c τ f = .ok s) {a b : TermId} (ha : a ∈ c.vocabulary) (hb : b ∈ c.vocabulary)
    (hne : a ≠ b) :
    s.similarity? a b = stored s.rows (c.vocabulary.idxOf a) (c.vocabulary.idxOf b) := by
  have hidx : ¬c.vocabulary.idxOf a = c.vocabulary.idxOf b := fun he => hne ((List.idxOf_inj ha).1 he)
  rw [similarity?, index?_of_mem h ha, index?_of_mem h hb]
  simp only [hidx, if_false]
  rfl

theorem mem_vocabulary_of_tolerant {a b : TermId} (h : c.Tolerant τ f a b) : a ∈ c.vocabulary ∧ b ∈ c.vocabulary := by
  rcases h with ⟨rfl, ha⟩ | ⟨-, hpos, -⟩
  · exact ⟨ha, ha⟩
  · exact c.mem_vocabulary_of_jointHolders hpos

/-- A space finds two terms tolerant exactly when they are so by the plain definition. -/
theorem tolerant_iff (h : build c τ f = .ok s) (a b : TermId) : s.tolerant a b = true ↔ c.Tolerant τ f a b := by
  by_cases hmem : a ∈ c.vocabulary ∧ b ∈ c.vocabulary
  · obtain ⟨ha, hb⟩ := hmem
    rw [tolerant_of_mem h ha hb, Bool.or_eq_true, beq_iff_eq, List.idxOf_inj ha, Option.isSome_iff_exists]
    simp only [stored_idxOf h ha hb]
    constructor
    · rintro (rfl | ⟨x, -, htol, -⟩)
      · exact Or.inl ⟨rfl, ha⟩
      · exact htol
    · intro htol
      by_cases hab : a = b
      · exact Or.inl hab
      · exact Or.inr ⟨_, hab, htol, rfl⟩
  · rw [(tolerant_of_not_mem h hmem).1]
    exact iff_of_false Bool.false_ne_true fun htol => hmem (mem_vocabulary_of_tolerant htol)

/-- The similarity kept of two terms is theirs, and kept only where they tolerate each other. -/
theorem similarity?_eq_some (h : build c τ f = .ok s) {a b : TermId} (hne : a ≠ b) (x : α) :
    s.similarity? a b = some x ↔ c.Tolerant τ f a b ∧ x = c.similarity f a b := by
  by_cases hmem : a ∈ c.vocabulary ∧ b ∈ c.vocabulary
  · rw [similarity?_of_mem h hmem.1 hmem.2 hne, stored_idxOf h hmem.1 hmem.2]
    exact and_iff_right hne
  · rw [(tolerant_of_not_mem h hmem).2]
    exact iff_of_false nofun fun htol => hmem (mem_vocabulary_of_tolerant htol.1)

theorem similarity?_eq_none (h : build c τ f = .ok s) {a b : TermId} (hno : ¬c.Tolerant τ f a b) :
    s.similarity? a b = none := by
  by_cases hab : a = b
  · subst hab
    have ha : ¬(a ∈ c.vocabulary ∧ a ∈ c.vocabulary) := fun ha => hno (Or.inl ⟨rfl, ha.1⟩)
    exact (tolerant_of_not_mem h ha).2
  · refine Option.eq_none_iff_forall_ne_some.2 ?_
    intro x hx
    exact hno ((similarity?_eq_some h hab x).1 hx).1

end ToleranceSpace

end ToleranceClustering
