import ToleranceClustering.Proofs.Topics

/-!
# Every document is placed

A document is in a topic or in the rest, never in both. Since every topic holds all the documents that its terms cover,
the best membership of a document in the rest stays below the threshold.
-/

namespace ToleranceClustering

variable {α : Type} [Scalar α]

/-- A clustering that places every document of its corpus. -/
structure Clustering.Complete (c : Corpus α) (settings : Settings α) (r : Clustering α) : Prop where
  placed : ∀ pos < c.size, (∃ t ∈ r.topics, pos ∈ t.positions) ↔ pos ∉ r.rest.positions
  ascending : Ascending r.rest.positions
  documents : ∀ m ∈ r.rest.members, m.position < c.size ∧ m.document = c.id m.position
  largest : ∀ m ∈ r.rest.members,
    Scalar.IsLargest (r.topics.map fun t => membership (c.vector m.position) t.terms) m.membership
  below : ∀ m ∈ r.rest.members, m.membership = 0 ∨ m.membership < settings.minMembership
  malformed : ∀ pos < c.size, c.isMalformed pos = true →
    (∀ t ∈ r.topics, pos ∉ t.positions) ∧ ⟨c.id pos, pos, 0⟩ ∈ r.rest.members

namespace Clusterer

variable {c : Corpus α} {s : ToleranceSpace α} {settings : Settings α} {topics : List (Topic α)}

/-- The positions of the documents that no topic holds. -/
theorem positions_uncovered (c : Corpus α) (topics : List (Topic α)) :
    (uncovered c topics).map Member.position =
      (List.range c.size).filter fun pos => !(topics.flatMap Topic.positions).contains pos := by
  unfold uncovered
  rw [List.map_map]
  exact List.map_id' _

theorem ascending_uncovered (c : Corpus α) (topics : List (Topic α)) :
    Ascending ((uncovered c topics).map Member.position) := by
  rw [positions_uncovered]
  exact (Ascending.ascending_range c.size).filter _

theorem mem_positions_uncovered {pos : Position} :
    pos ∈ (uncovered c topics).map Member.position ↔ pos < c.size ∧ ∀ t ∈ topics, pos ∉ t.positions := by
  rw [positions_uncovered, List.mem_filter, List.mem_range, Bool.not_eq_true', ← Bool.not_eq_true,
    List.contains_iff_mem, List.mem_flatMap]
  simp only [not_exists, not_and]

theorem mem_uncovered {m : Member α} :
    m ∈ uncovered c topics ↔ m.position < c.size ∧ (∀ t ∈ topics, m.position ∉ t.positions) ∧
      m.document = c.id m.position ∧ m.membership = bestMembership c topics m.position := by
  have hpos : m.position ∈ (uncovered c topics).map Member.position ↔ _ := mem_positions_uncovered
  rw [positions_uncovered] at hpos
  unfold uncovered
  rw [List.mem_map, ← and_assoc, ← hpos]
  constructor
  · rintro ⟨pos, hmem, rfl⟩
    exact ⟨hmem, rfl, rfl⟩
  · rintro ⟨hmem, hid, hbest⟩
    exact ⟨m.position, hmem, by rw [← hid, ← hbest]⟩

/-- A document that a topic does not hold has no membership in its terms that reaches the threshold. -/
theorem membership_of_not_mem {t : Topic α} (h : t.Exact c s settings) {pos : Position} (hpos : pos < c.size)
    (hmiss : pos ∉ t.positions) (h0 : 0 < membership (c.vector pos) t.terms) :
    ¬settings.minMembership ≤ membership (c.vector pos) t.terms := by
  intro hμ
  have hm : (⟨c.id pos, pos, membership (c.vector pos) t.terms⟩ : Member α) ∈ t.members :=
    (h.mem_members _).2 ⟨hpos, h0, hμ, rfl, rfl⟩
  exact hmiss (List.mem_map_of_mem hm)

section Rounded

variable [Scalar.Rounded α]

open Scalar Scalar.Ordered

/-- A document without terms is in no exact topic. -/
theorem not_mem_of_isMalformed {t : Topic α} (h : t.Exact c s settings) {pos : Position}
    (hmal : c.isMalformed pos = true) : pos ∉ t.positions := by
  intro hmem
  obtain ⟨m, hm, rfl⟩ := List.mem_map.1 hmem
  obtain ⟨-, h0, -, he, -⟩ := (h.mem_members m).1 hm
  rw [he, membership_of_isEmpty hmal] at h0
  exact lt_irrefl 0 h0

theorem bestMembership_of_isMalformed {pos : Position} (hmal : c.isMalformed pos = true) :
    bestMembership c topics pos = 0 := by
  rcases foldl_max_cases (topics.map fun t => membership (c.vector pos) t.terms) 0 with he | ⟨hmem, hlt⟩
  · exact he
  · obtain ⟨t, -, ht⟩ := List.mem_map.1 hmem
    rw [← ht, membership_of_isEmpty hmal] at hlt
    exact absurd hlt (lt_irrefl 0)

/-- With exact topics, the documents in no topic complete the clustering. -/
theorem complete_of_exact (hrange : settings.InRange) (h : ∀ t ∈ topics, t.Exact c s settings)
    (merges : List (MergeStep α)) :
    (⟨topics, Topic.rest (uncovered c topics), merges⟩ : Clustering α).Complete c settings where
  placed := by
    intro pos hpos
    have hmem : pos ∈ (Topic.rest (uncovered c topics)).positions ↔ _ := mem_positions_uncovered
    rw [hmem]
    constructor
    · rintro ⟨t, ht, hin⟩ ⟨-, hout⟩
      exact hout t ht hin
    · intro hnot
      by_contra hnone
      exact hnot ⟨hpos, fun t ht hin => hnone ⟨t, ht, hin⟩⟩
  ascending := ascending_uncovered c topics
  documents := by
    intro m hm
    obtain ⟨hpos, -, hid, -⟩ := mem_uncovered.1 hm
    exact ⟨hpos, hid⟩
  largest := by
    intro m hm
    obtain ⟨-, -, -, hbest⟩ := mem_uncovered.1 hm
    rw [hbest]
    exact isLargest_foldl_max _
  below := by
    intro m hm
    obtain ⟨hpos, hout, -, hbest⟩ := mem_uncovered.1 hm
    rcases foldl_max_cases (topics.map fun t => membership (c.vector m.position) t.terms) 0 with he | ⟨hmem, hlt⟩
    · exact Or.inl (hbest.trans he)
    · right
      obtain ⟨t, ht, he⟩ := List.mem_map.1 hmem
      have hb : m.membership = membership (c.vector m.position) t.terms := hbest.trans he.symm
      rw [← he] at hlt
      rw [hb]
      exact lt_of_not_le (right_number hrange.minMembership.1) (right_number (le_of_lt hlt))
        (membership_of_not_mem (h t ht) hpos (hout t ht) hlt)
  malformed := by
    intro pos hpos hmal
    have hout : ∀ t ∈ topics, pos ∉ t.positions := fun t ht => not_mem_of_isMalformed (h t ht) hmal
    exact ⟨hout, mem_uncovered.2 ⟨hpos, hout, rfl, (bestMembership_of_isMalformed hmal).symm⟩⟩

end Rounded

end Clusterer

/-- A run of the clusterer over binary64 places every document: in topics or, with the best membership that it reaches in
any topic, in the rest. Documents without tokens, with empty tokens only or whose terms are all left out have no vector to
speak of, and are in the rest with membership zero. -/
theorem every_document_placed (k : Clusterer Float) (lex : Lexicon) (docs : List Document) :
    ∃ r, (k.cluster lex docs false).1 = .ok r ∧ r.Complete (k.corpusOf lex docs) k.settings ∧
      (k.corpusOf lex docs).size = docs.length ∧
      ∀ pos d, docs[pos]? = some d → (k.corpusOf lex docs).id pos = d.id ∧
        ((∀ token ∈ d.tokens, token = "") ∨ (∀ term ∈ d.terms, Extraction.Drops k.extraction docs d term) →
          (k.corpusOf lex docs).isMalformed pos = true) := by
  obtain ⟨s, hs⟩ := k.exists_space lex docs
  refine ⟨_, k.cluster_eq lex docs hs, Clusterer.complete_of_exact k.inRange (exact_of_mem_topics k _ hs) _,
    k.size_corpusOf lex docs, ?_⟩
  intro pos d hd
  refine ⟨Extraction.id_extract _ _ _ hd, ?_⟩
  intro h
  apply Extraction.isMalformed_of_dropped hd
  intro t ht
  rcases h with h | h
  · obtain ⟨hmem, hne⟩ := List.mem_filter.1 ht
    exact absurd (h t hmem) (of_decide_eq_true hne)
  · exact h t ht

end ToleranceClustering
