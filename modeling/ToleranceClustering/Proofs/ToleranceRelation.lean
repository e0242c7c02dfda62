import ToleranceClustering.Proofs.Binary64.Laws
import ToleranceClustering.Proofs.TolerantTerms

/-!
# The relation of a tolerance space

A space is built sparsely, row by row, and asked in four ways: whether two terms tolerate each other, for the class of a
term, for the similarity of two terms, and in how many documents two terms are together. All four agree with the plain
definition, pair by pair over the whole vocabulary (`Plain`), whatever the measure is (`space_eq_plain_relation`).
-/

namespace ToleranceClustering

namespace ToleranceSpace

variable {α : Type} [Scalar α] {c : Corpus α} {τ : α} {f : Measure α} {s : ToleranceSpace α}

/-! ## Classes -/

/-- The terms of the rows, without the similarities. -/
def linkedTerms (inc : Incidence) (τ : α) (f : Measure α) (terms : Nat) : List (List Nat) :=
  (List.range terms).map fun i => (inc.linkedRow τ f i).map Prod.fst

/-- The members of a class: the earlier terms whose row holds it, the term itself, and those of its row. -/
theorem getD_classes (h : build c τ f = .ok s) {i : Nat} (hi : i < c.vocabulary.length) :
    s.classes.getD i [] =
      (Incidence.invert c.vocabulary.length 0 (linkedTerms s.incidence τ f c.vocabulary.length)).getD i [] ++
        i :: (s.incidence.linkedRow τ f i).map Prod.fst := by
  have hclasses : s.classes = (classLists s.rows.toList).toArray := by rw [eq_of_build h]
  have hrow : (List.range c.vocabulary.length)[i]? = some i := List.getElem?_range hi
  rw [hclasses, rows_of_build h, Array.getD_eq_getD_getElem?, List.getElem?_toArray, classLists]
  simp only [List.getElem?_map, List.getElem?_zipIdx, hrow, Option.map_some, Option.getD_some, Nat.zero_add, earlier,
    List.length_map, List.length_range, List.map_map]
  rfl

/-- The earlier terms of a class. -/
theorem mem_earlier {inc : Incidence} (hp : inc.Proper) {terms i j : Nat} (hi : i < terms) :
    j ∈ (Incidence.invert terms 0 (linkedTerms inc τ f terms)).getD i [] ↔
      j < terms ∧ ∃ x, inc.link? τ f j i = some x := by
  have hnodup : ∀ row ∈ linkedTerms inc τ f terms, row.Nodup := by
    intro row hrow
    obtain ⟨k, -, rfl⟩ := List.mem_map.1 hrow
    exact (Incidence.ascending_linkedRow k).nodup
  rw [Incidence.mem_getD_invert hi hnodup]
  constructor
  · rintro ⟨n, row, hrow, rfl, hmem⟩
    rw [linkedTerms, List.getElem?_map, Option.map_eq_some_iff] at hrow
    obtain ⟨k, hk, rfl⟩ := hrow
    obtain ⟨e, he, rfl⟩ := List.mem_map.1 hmem
    obtain ⟨hn, hkn⟩ := List.getElem?_eq_some_iff.1 hk
    rw [List.getElem_range] at hkn
    rw [List.length_range] at hn
    subst hkn
    rw [Nat.zero_add]
    exact ⟨hn, e.2, (Incidence.mem_linkedRow hp).1 he⟩
  · rintro ⟨hj, x, hx⟩
    refine ⟨j, (inc.linkedRow τ f j).map Prod.fst, ?_, (Nat.zero_add j).symm, ?_⟩
    · rw [linkedTerms, List.getElem?_map, List.getElem?_range hj]
      rfl
    · exact List.mem_map.2 ⟨(i, x), (Incidence.mem_linkedRow hp).2 hx, rfl⟩

/-- The local members of a class are the numbers of its terms. -/
theorem mem_classes (h : build c τ f = .ok s) {a b : TermId} (ha : a ∈ c.vocabulary) (hb : b ∈ c.vocabulary) :
    c.vocabulary.idxOf b ∈ s.classes.getD (c.vocabulary.idxOf a) [] ↔ c.Tolerant τ f a b := by
  have hia := List.idxOf_lt_length_of_mem ha
  rw [getD_classes h hia, List.mem_append, List.mem_cons, mem_earlier (proper_incidence h) hia, List.idxOf_inj hb,
    and_iff_right (List.idxOf_lt_length_of_mem hb)]
  have hlater : c.vocabulary.idxOf b ∈ (s.incidence.linkedRow τ f (c.vocabulary.idxOf a)).map Prod.fst ↔
      ∃ x, s.incidence.link? τ f (c.vocabulary.idxOf a) (c.vocabulary.idxOf b) = some x := by
    rw [List.mem_map]
    constructor
    · rintro ⟨e, he, heb⟩
      exact ⟨e.2, heb ▸ (Incidence.mem_linkedRow (proper_incidence h)).1 he⟩
    · rintro ⟨x, hx⟩
      exact ⟨(_, x), (Incidence.mem_linkedRow (proper_incidence h)).2 hx, rfl⟩
  rw [hlater]
  simp only [link?_idxOf h ha hb, link?_idxOf h hb ha]
  constructor
  · rintro (⟨x, -, htol, -⟩ | rfl | ⟨x, -, htol, -⟩)
    · exact htol.symm
    · exact Or.inl ⟨rfl, ha⟩
    · exact htol
  · intro htol
    rcases Nat.lt_trichotomy a b with hab | rfl | hab
    · exact Or.inr (Or.inr ⟨_, hab, htol, rfl⟩)
    · exact Or.inr (Or.inl rfl)
    · exact Or.inl ⟨_, hab, htol.symm, rfl⟩

/-- The local members of a class are numbers of terms, ascending. -/
theorem ascending_classes (h : build c τ f = .ok s) {i : Nat} (hi : i < c.vocabulary.length) :
    Ascending (s.classes.getD i []) ∧ ∀ j ∈ s.classes.getD i [], j < c.vocabulary.length := by
  have hp := proper_incidence h
  have hearlier : ∀ j ∈ (Incidence.invert c.vocabulary.length 0
      (linkedTerms s.incidence τ f c.vocabulary.length)).getD i [], j < i := by
    intro j hj
    obtain ⟨-, x, hx⟩ := (mem_earlier hp hi).1 hj
    exact (Incidence.link?_eq_some.1 hx).1
  have hlater : ∀ j ∈ (s.incidence.linkedRow τ f i).map Prod.fst, i < j ∧ j < c.vocabulary.length := by
    intro j hj
    obtain ⟨e, he, rfl⟩ := List.mem_map.1 hj
    rw [← termCount_incidence h]
    exact Incidence.lt_of_mem_linkedRow hp he
  have hnodup : ∀ row ∈ linkedTerms s.incidence τ f c.vocabulary.length, row.Nodup := by
    intro row hrow
    obtain ⟨k, -, rfl⟩ := List.mem_map.1 hrow
    exact (Incidence.ascending_linkedRow k).nodup
  rw [getD_classes h hi]
  constructor
  · refine List.pairwise_append.2 ⟨Incidence.ascending_getD_invert hi hnodup 0, ?_, ?_⟩
    · exact List.pairwise_cons.2 ⟨fun j hj => (hlater j hj).1, Incidence.ascending_linkedRow i⟩
    · intro j hj k hk
      rcases List.mem_cons.1 hk with rfl | hk
      · exact hearlier j hj
      · exact Nat.lt_trans (hearlier j hj) (hlater k hk).1
  · intro j hj
    rcases List.mem_append.1 hj with hj | hj
    · exact Nat.lt_trans (hearlier j hj) hi
    · rcases List.mem_cons.1 hj with rfl | hj
      · exact hi
      · exact (hlater j hj).2

/-- The class of a term of the vocabulary holds, in ascending order, the terms that tolerate it. -/
theorem class?_spec (h : build c τ f = .ok s) {a : TermId} (ha : a ∈ c.vocabulary) :
    ∃ cls, s.class? a = some cls ∧ cls.term = a ∧ Ascending cls.members ∧ ∀ b, b ∈ cls.members ↔ c.Tolerant τ f a b := by
  have hia := List.idxOf_lt_length_of_mem ha
  obtain ⟨hasc, hbound⟩ := ascending_classes h hia
  refine ⟨s.classAt (c.vocabulary.idxOf a), ?_, termAt_idxOf h ha, ?_, ?_⟩
  · rw [class?, index?_of_mem h ha]
    rfl
  · refine List.pairwise_map.2 (hasc.imp_of_mem ?_)
    intro j k hj hk hjk
    obtain ⟨hjv, hji⟩ := termAt_mem h (hbound j hj)
    obtain ⟨hkv, hki⟩ := termAt_mem h (hbound k hk)
    rw [← c.ascending_vocabulary.idxOf_lt_idxOf hjv hkv, hji, hki]
    exact hjk
  · intro b
    show b ∈ (s.classes.getD (c.vocabulary.idxOf a) []).map s.termAt ↔ _
    rw [List.mem_map]
    constructor
    · rintro ⟨j, hj, rfl⟩
      obtain ⟨hjv, hji⟩ := termAt_mem h (hbound j hj)
      rw [← mem_classes h ha hjv, hji]
      exact hj
    · intro htol
      have hb := (mem_vocabulary_of_tolerant htol).2
      exact ⟨_, (mem_classes h ha hb).2 htol, termAt_idxOf h hb⟩

/-- The classes are those of the terms of the vocabulary. -/
theorem mem_allClasses (h : build c τ f = .ok s) {cls : ToleranceClass} :
    cls ∈ s.allClasses ↔ ∃ a ∈ c.vocabulary, s.class? a = some cls := by
  have hcount : s.termCount = c.vocabulary.length := by
    rw [termCount, (fields_of_build h).1, List.size_toArray]
  rw [allClasses, List.mem_map, hcount]
  constructor
  · rintro ⟨i, hi, rfl⟩
    obtain ⟨hv, hidx⟩ := termAt_mem h (List.mem_range.1 hi)
    refine ⟨s.termAt i, hv, ?_⟩
    rw [class?, index?_of_mem h hv, hidx]
    rfl
  · rintro ⟨a, ha, hcls⟩
    rw [class?, index?_of_mem h ha] at hcls
    exact ⟨c.vocabulary.idxOf a, List.mem_range.2 (List.idxOf_lt_length_of_mem ha), Option.some.inj hcls⟩

/-! ## The tolerant pairs -/

/-- The edges, row by row. -/
theorem edges_eq (h : build c τ f = .ok s) :
    s.edges = (List.range c.vocabulary.length).flatMap fun i =>
      (s.incidence.linkedRow τ f i).map fun e => (s.termAt i, s.termAt e.1, e.2) := by
  have hzip : s.rows.toList.zipIdx =
      (List.range c.vocabulary.length).map fun i => (s.incidence.linkedRow τ f i, i) := by
    rw [rows_of_build h]
    apply List.ext_getElem?
    intro i
    by_cases hi : i < c.vocabulary.length
    · simp [List.getElem?_zipIdx, List.getElem?_range hi]
    · simp [hi]
  rw [edges, hzip, List.flatMap_map]

/-- A row of edges is about its own term and a later one. -/
theorem exists_of_mem_row (h : build c τ f = .ok s) {i : Nat} (hi : i < c.vocabulary.length) {e : Nat × α}
    (he : e ∈ s.incidence.linkedRow τ f i) :
    ∃ b ∈ c.vocabulary, s.termAt e.1 = b ∧ c.vocabulary.idxOf b = e.1 ∧ s.termAt i < b ∧ c.Tolerant τ f (s.termAt i) b ∧
      e.2 = c.similarity f (s.termAt i) b := by
  have hlink := (Incidence.mem_linkedRow (proper_incidence h)).1 he
  have hj : e.1 < c.vocabulary.length := by
    rw [← termCount_incidence h]
    exact (Incidence.lt_of_mem_linkedRow (proper_incidence h) he).2
  obtain ⟨hav, hai⟩ := termAt_mem h hi
  obtain ⟨hbv, hbj⟩ := termAt_mem h hj
  rw [← hai, ← hbj, link?_idxOf h hav hbv] at hlink
  exact ⟨s.termAt e.1, hbv, rfl, hbj, hlink⟩

/-- The edges are the tolerant pairs, the smaller term first, each with its similarity. -/
theorem mem_edges (h : build c τ f = .ok s) (a b : TermId) (x : α) :
    (a, b, x) ∈ s.edges ↔ a < b ∧ c.Tolerant τ f a b ∧ x = c.similarity f a b := by
  rw [edges_eq h, List.mem_flatMap]
  constructor
  · rintro ⟨i, hi, hmem⟩
    obtain ⟨e, he, hp⟩ := List.mem_map.1 hmem
    obtain ⟨_, -, hb, -, hspec⟩ := exists_of_mem_row h (List.mem_range.1 hi) he
    simp only [Prod.mk.injEq] at hp
    obtain ⟨rfl, rfl, rfl⟩ := hp
    rw [hb]
    exact hspec
  · rintro ⟨hlt, htol, rfl⟩
    obtain ⟨ha, hb⟩ := mem_vocabulary_of_tolerant htol
    refine ⟨c.vocabulary.idxOf a, List.mem_range.2 (List.idxOf_lt_length_of_mem ha), List.mem_map.2 ?_⟩
    refine ⟨(c.vocabulary.idxOf b, c.similarity f a b), ?_, ?_⟩
    · exact (Incidence.mem_linkedRow (proper_incidence h)).2 ((link?_idxOf h ha hb _).2 ⟨hlt, htol, rfl⟩)
    · rw [termAt_idxOf h ha, termAt_idxOf h hb]

/-- No pair is listed twice. -/
theorem nodup_edges (h : build c τ f = .ok s) : (s.edges.map fun e => (e.1, e.2.1)).Nodup := by
  rw [edges_eq h, List.map_flatMap, List.nodup_flatMap]
  constructor
  · intro i hi
    rw [List.map_map]
    refine List.Nodup.map_on ?_ (List.Nodup.of_map Prod.fst (Incidence.ascending_linkedRow i).nodup)
    intro e he e' he' heq
    obtain ⟨b, -, hb, hbj, -, -, hx⟩ := exists_of_mem_row h (List.mem_range.1 hi) he
    obtain ⟨b', -, hb', hbj', -, -, hx'⟩ := exists_of_mem_row h (List.mem_range.1 hi) he'
    have hsame : b = b' := by
      rw [← hb, ← hb']
      exact (Prod.mk.inj heq).2
    subst hsame
    exact Prod.ext (hbj.symm.trans hbj') (hx.trans hx'.symm)
  · refine List.nodup_range.imp_of_mem ?_
    intro i j hi hj hij p hpi hpj
    simp only [List.map_map, List.mem_map] at hpi hpj
    obtain ⟨e, -, rfl⟩ := hpi
    obtain ⟨e', -, heq⟩ := hpj
    have hterm : s.termAt j = s.termAt i := (Prod.mk.inj heq).1
    apply hij
    rw [← (termAt_mem h (List.mem_range.1 hi)).2, ← (termAt_mem h (List.mem_range.1 hj)).2, hterm]

/-- The size of the relation is the number of edges. -/
theorem relationSize_eq_length (s : ToleranceSpace α) : s.relationSize = s.edges.length := by
  have hsum : ∀ edgesOf : List (Nat × α) × Nat → List (TermId × TermId × α),
      (∀ row, (edgesOf row).length = row.1.length) → ∀ (rows : List (List (Nat × α))) (n k : Nat),
        rows.foldl (fun n row => n + row.length) n = n + ((rows.zipIdx k).flatMap edgesOf).length := by
    intro edgesOf hlength rows
    induction rows with
    | nil => intro n k; rfl
    | cons row rows ih =>
      intro n k
      rw [List.foldl_cons, ih, List.zipIdx_cons, List.flatMap_cons, List.length_append, hlength, Nat.add_assoc]
  rw [relationSize, ← Array.foldl_toList, hsum _ (fun row => List.length_map _) s.rows.toList 0 0, Nat.zero_add, edges]

/-! ## The built-in measures -/

/-- What a built-in measure says of terms that never occur together. -/
theorem similarity_of_apart (m : Similarity) {a b : TermId} (h : c.jointHolders a b = 0) :
    c.similarity (m.measure : Measure α) a b = 0 := by
  have hzero : ∀ n k, (m.measure : Measure α) 0 n k = 0 := fun n k => if_pos (Or.inl rfl)
  unfold Corpus.similarity
  rw [h]
  split <;> exact hzero _ _

/-- For a built-in measure, terms of the vocabulary that are similar enough occur together. -/
theorem tolerant_iff_of_builtin [Scalar.Ordered α] (m : Similarity) (hτ : 0 < τ) {a b : TermId} (hne : a ≠ b) :
    c.Tolerant τ m.measure a b ↔ τ ≤ c.similarity m.measure a b := by
  constructor
  · rintro (⟨rfl, -⟩ | ⟨-, -, h⟩)
    · exact absurd rfl hne
    · exact h
  · intro h
    refine Or.inr ⟨hne, Nat.pos_of_ne_zero ?_, h⟩
    intro hzero
    rw [similarity_of_apart m hzero] at h
    exact Scalar.Ordered.lt_irrefl 0 (Scalar.Ordered.lt_of_lt_of_le hτ h)

/-! ## All of it -/

/-- A space that answers by the plain definition of tolerance over a corpus. -/
structure Plain (c : Corpus α) (τ : α) (f : Measure α) (s : ToleranceSpace α) : Prop where
  terms : s.terms.toList = c.vocabulary
  pairwise : ∀ a ∈ c.vocabulary, ∀ b ∈ c.vocabulary, a < b → (s.tolerant a b = true ↔
    0 < c.jointHolders a b ∧ τ ≤ f (c.jointHolders a b) (c.holders a).length (c.holders b).length)
  tolerant : ∀ a b, s.tolerant a b = true ↔ c.Tolerant τ f a b
  reflexive : ∀ a, s.tolerant a a = true ↔ a ∈ c.vocabulary
  symmetric : ∀ a b, s.tolerant a b = s.tolerant b a
  classes : ∀ a ∈ c.vocabulary, ∃ cls, s.class? a = some cls ∧ cls.term = a ∧ Ascending cls.members ∧
    ∀ b, b ∈ cls.members ↔ s.tolerant a b = true
  unknown : ∀ a ∉ c.vocabulary, s.class? a = none
  similar : ∀ a b, a < b → s.tolerant a b = true →
    s.similarity? a b = some (f (c.jointHolders a b) (c.holders a).length (c.holders b).length) ∧
      s.similarity? b a = some (f (c.jointHolders a b) (c.holders a).length (c.holders b).length)
  apart : ∀ a b, s.tolerant a b = false → s.similarity? a b = none
  edges : ∀ a b x, (a, b, x) ∈ s.edges ↔ a < b ∧ s.tolerant a b = true ∧ s.similarity? a b = some x
  size : s.relationSize = s.edges.length ∧ (s.edges.map fun e => (e.1, e.2.1)).Nodup
  counted : ∀ a b i j, s.index? a = some i → s.index? b = some j → i < j →
    (s.incidence.countShared i s.incidence.scratch).2.getD j 0 = s.cooccurrence a b
  together : ∀ a b, s.cooccurrence a b = c.jointHolders a b
  postings : ∀ t, s.postings t = c.holders t ∧ s.documentFrequency t = (c.holders t).length

theorem plain_of_build (h : build c τ f = .ok s) : Plain c τ f s where
  terms := by rw [(fields_of_build h).1]
  pairwise := by
    intro a _ b _ hab
    rw [tolerant_iff h, ← c.similarity_of_lt f hab]
    constructor
    · rintro (⟨rfl, -⟩ | ⟨-, hpos, hτ⟩)
      · exact absurd hab (Nat.lt_irrefl a)
      · exact ⟨hpos, hτ⟩
    · rintro ⟨hpos, hτ⟩
      exact Or.inr ⟨Nat.ne_of_lt hab, hpos, hτ⟩
  tolerant := tolerant_iff h
  reflexive := by
    intro a
    rw [tolerant_iff h]
    exact ⟨fun htol => (mem_vocabulary_of_tolerant htol).1, fun ha => Or.inl ⟨rfl, ha⟩⟩
  symmetric := by
    intro a b
    rw [Bool.eq_iff_iff, tolerant_iff h, tolerant_iff h]
    exact ⟨.symm, .symm⟩
  classes := by
    intro a ha
    obtain ⟨cls, hcls, hterm, hasc, hmem⟩ := class?_spec h ha
    exact ⟨cls, hcls, hterm, hasc, fun b => (hmem b).trans (tolerant_iff h a b).symm⟩
  unknown := by
    intro a ha
    rw [class?, index?_of_not_mem h ha]
    rfl
  similar := by
    intro a b hab htol
    rw [tolerant_iff h] at htol
    rw [← c.similarity_of_lt f hab]
    refine ⟨(similarity?_eq_some h (Nat.ne_of_lt hab) _).2 ⟨htol, rfl⟩, ?_⟩
    exact (similarity?_eq_some h (Nat.ne_of_gt hab) _).2 ⟨htol.symm, c.similarity_comm f a b⟩
  apart := by
    intro a b hno
    refine similarity?_eq_none h ?_
    rw [← tolerant_iff h, hno]
    exact Bool.false_ne_true
  edges := by
    intro a b x
    rw [mem_edges h]
    refine and_congr_right ?_
    intro hab
    rw [similarity?_eq_some h (Nat.ne_of_lt hab), tolerant_iff h]
    exact ⟨fun hx => ⟨hx.1, hx⟩, fun hx => hx.2⟩
  size := ⟨relationSize_eq_length s, nodup_edges h⟩
  counted := by
    intro a b i j hi hj hij
    have hmem : ∀ {t k}, s.index? t = some k → t ∈ c.vocabulary ∧ c.vocabulary.idxOf t = k := by
      intro t k hk
      by_cases ht : t ∈ c.vocabulary
      · rw [index?_of_mem h ht] at hk
        exact ⟨ht, Option.some.inj hk⟩
      · rw [index?_of_not_mem h ht] at hk
        cases hk
    obtain ⟨ha, rfl⟩ := hmem hi
    obtain ⟨hb, rfl⟩ := hmem hj
    rw [(Incidence.getD_countShared (proper_incidence h) _).2.1, if_pos hij, shared_idxOf h ha hb,
      cooccurrence_eq_jointHolders h]
  together := cooccurrence_eq_jointHolders h
  postings := by
    intro t
    rw [documentFrequency, postings_eq_holders h]
    exact ⟨rfl, rfl⟩

/-- The space of a corpus over binary64, for a threshold in its range and any measure, answers by the plain definition of
tolerance. For the built-in measures that is the threshold alone, over all pairs of terms. -/
theorem space_eq_plain_relation (c : Corpus Float) {τ : Float} (hτ : Scalar.withinAbove 0 1 τ = true)
    (f : Measure Float) :
    ∃ s, build c τ f = .ok s ∧ Plain c τ f s ∧ ∀ m : Similarity, f = m.measure →
      ∀ a ∈ c.vocabulary, ∀ b ∈ c.vocabulary, a ≠ b → (s.tolerant a b = true ↔ τ ≤ c.similarity f a b) := by
  obtain ⟨s, hs⟩ := exists_build c hτ f
  refine ⟨s, hs, plain_of_build hs, ?_⟩
  rintro m rfl a - b - hne
  have hpos : 0 < τ := by
    rw [Scalar.withinAbove, Bool.and_eq_true, decide_eq_true_iff] at hτ
    exact hτ.1
  rw [tolerant_iff hs]
  exact tolerant_iff_of_builtin m hpos hne

/-- Three documents: two terms in one of them together, the first of these in another one alone, and a third term by
itself. -/
def threeDocuments : Corpus Float :=
  ⟨#[⟨0, .ofPairs [(0, 1), (1, 1)]⟩, ⟨1, .ofPairs [(0, 1)]⟩, ⟨2, .ofPairs [(2, 1)]⟩]⟩

/-- Which share of the first term's documents hold the second: a measure that tells the two apart. -/
def firstShare : Measure Float := fun shared a _ => Float.ofNat shared / Float.ofNat a

theorem space_of_three_documents :
    Scalar.withinAbove 0 1 (0.5 : Float) = true ∧ ∃ s, build threeDocuments 0.5 firstShare = .ok s ∧
      Plain threeDocuments 0.5 firstShare s ∧ s.tolerant 0 1 = true ∧ s.tolerant 0 2 = false := by
  have hτ : Scalar.withinAbove 0 1 (0.5 : Float) = true := by decide +kernel
  obtain ⟨s, hs, hplain, -⟩ := space_eq_plain_relation threeDocuments hτ firstShare
  refine ⟨hτ, s, hs, hplain, ?_, ?_⟩
  · exact (hplain.tolerant 0 1).2 (Or.inr ⟨by decide, by decide +kernel, by decide +kernel⟩)
  · rw [← Bool.not_eq_true, hplain.tolerant]
    rintro (⟨hne, -⟩ | ⟨-, hpos, -⟩)
    · exact absurd hne (by decide)
    · exact absurd hpos (by decide +kernel)

end ToleranceSpace

end ToleranceClustering
