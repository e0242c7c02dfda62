import ToleranceClustering.Proofs.Checked.Lookup
import ToleranceClustering.Proofs.RelationGraph

/-!
# A checked tolerance space

Building a space looks up the local number of every term of a vector, enters documents into posting lists, counts, for each
term, in a scratch array of counters of 32 bits, and enters the pairs that it finds into a graph, from which it reads the
classes. All the numbers are places in the vocabulary, all the positions are documents, and no term of a corpus whose terms
have less than `2 ^ 32` holders is met more often than a counter can say. What is left is the room in the graph: a corpus of
less than `2 ^ 32` terms has a space exactly if it relates less than `2 ^ 32` pairs of them (`Checked.build_eq`).
-/

namespace ToleranceClustering

namespace Checked

variable {α : Type} [Scalar α]

/-! ## Inverting documents -/

/-- The postings after a document was entered. -/
def enter (pos : Nat) (postings : Array (List Nat)) (doc : List Nat) : Option (Array (List Nat)) :=
  doc.foldlM (fun postings i => modify postings i (pos :: ·)) postings

/-- The postings of `terms` terms over documents of which the first stands at position `pos`. -/
def invert (terms : Nat) (pos : Nat) : List (List Nat) → Option (Array (List Nat))
  | [] => some (Array.replicate terms [])
  | doc :: docs => do
    let postings ← invert terms (pos + 1) docs
    enter pos postings doc

theorem enter_eq (pos : Nat) {postings : Array (List Nat)} {doc : List Nat} (h : ∀ i ∈ doc, i < postings.size) :
    enter pos postings doc = some (Incidence.enter pos postings doc) := by
  refine (foldlM_eq_some (fun (postings : Array (List Nat)) doc => ∀ i ∈ doc, i < postings.size) ?_ h).1
  intro postings i doc hall
  obtain ⟨hi, hdoc⟩ := List.forall_mem_cons.1 hall
  refine ⟨modify_eq hi _, ?_⟩
  intro j hj
  rw [Array.size_modify]
  exact hdoc j hj

theorem invert_eq {terms : Nat} {docs : List (List Nat)} (h : ∀ doc ∈ docs, ∀ i ∈ doc, i < terms) (pos : Nat) :
    invert terms pos docs = some (Incidence.invert terms pos docs) := by
  induction docs generalizing pos with
  | nil => rfl
  | cons doc docs ih =>
    obtain ⟨hdoc, hdocs⟩ := List.forall_mem_cons.1 h
    rw [invert, bind_of_eq (ih hdocs (pos + 1)), enter_eq]
    · rfl
    · intro i hi
      rw [Incidence.size_invert]
      exact hdoc i hi

/-! ## Rows -/

/-- Counts one more shared document for a later term, unless its counter of 32 bits is full. -/
def touch (i : Nat) (state : List Nat × Array Nat) (j : Nat) : Option (List Nat × Array Nat) :=
  if j ≤ i then some state
  else do
    let n ← state.2[j]?
    let counts ← if n + 1 < 2 ^ 32 then modify state.2 j (· + 1) else none
    return (if n = 0 then j :: state.1 else state.1, counts)

/-- The later terms met in the documents of `i`, and the scratch array with the counts. -/
def countShared (inc : Incidence) (i : Nat) (scratch : Array Nat) : Option (List Nat × Array Nat) := do
  let docs ← inc.postings[i]?
  docs.foldlM (fun state doc => do
    let terms ← inc.documents[doc]?
    terms.foldlM (touch i) state) ([], scratch)

/-- Takes the counts of the met terms out of the scratch array, and keeps the terms that are similar enough. -/
def collect (inc : Incidence) (τ : α) (f : Measure α) (i : Nat) (scratch : Array Nat) :
    List Nat → Option (List (Nat × α) × Array Nat)
  | [] => some ([], scratch)
  | j :: js => do
    let n ← scratch[j]?
    let cleared ← modify scratch j fun _ => 0
    let own ← inc.postings[i]?
    let other ← inc.postings[j]?
    let rest ← collect inc τ f i cleared js
    let s := f n own.length other.length
    return (if τ ≤ s then (j, s) :: rest.1 else rest.1, rest.2)

/-- The later terms that `i` is tolerant to, and the scratch array afterwards. -/
def row (inc : Incidence) (τ : α) (f : Measure α) (i : Nat) (scratch : Array Nat) :
    Option (List (Nat × α) × Array Nat) := do
  let counted ← countShared inc i scratch
  collect inc τ f i counted.2 (Ascending.ofList counted.1.reverse)

/-- The rows of some terms, all counted in one scratch array. -/
def rowsOf (inc : Incidence) (τ : α) (f : Measure α) (scratch : Array Nat) :
    List Nat → Option (List (List (Nat × α)) × Array Nat)
  | [] => some ([], scratch)
  | i :: is => do
    let first ← row inc τ f i scratch
    let others ← rowsOf inc τ f first.2 is
    return (first.1 :: others.1, others.2)

variable {inc : Incidence} {τ : α} {f : Measure α}

omit [Scalar α] in
theorem getElem?_postingsOf {i : Nat} (hi : i < inc.termCount) : inc.postings[i]? = some (inc.postingsOf i) :=
  getElem?_eq_getD hi []

theorem getElem?_termsOf {doc : Nat} (h : doc < inc.documents.size) : inc.documents[doc]? = some (inc.termsOf doc) :=
  getElem?_eq_getD h []

/-- A term with room in its counter is counted. -/
theorem touch_eq {i j : Nat} {state : List Nat × Array Nat} (hj : j < state.2.size)
    (hroom : state.2.getD j 0 + 1 < 2 ^ 32) : touch i state j = some (Incidence.touch i state j) := by
  rcases Nat.lt_or_ge i j with hij | hji
  · rw [touch, if_neg (Nat.not_le_of_lt hij), bind_of_eq (getElem?_eq_getD hj 0), if_pos hroom, modify_eq hj,
      Incidence.touch_of_lt hij]
    rfl
  · rw [touch, if_pos hji, Incidence.touch_of_le hji]

/-- What every counter still has to take fits into it. -/
structure Room (state : List Nat × Array Nat) (terms : Nat) (met : List Nat) : Prop where
  size : state.2.size = terms
  bounded : ∀ j ∈ met, j < terms
  counts : ∀ j, state.2.getD j 0 + met.count j < 2 ^ 32

theorem Room.touch {i j terms : Nat} {state : List Nat × Array Nat} {met : List Nat} (h : Room state terms (j :: met)) :
    Checked.touch i state j = some (Incidence.touch i state j) ∧ Room (Incidence.touch i state j) terms met := by
  obtain ⟨hj, hmet⟩ := List.forall_mem_cons.1 h.bounded
  rw [← h.size] at hj
  refine ⟨touch_eq hj ?_, ?_, hmet, ?_⟩
  · have hcount := h.counts j
    rw [List.count_cons_self] at hcount
    omega
  · rw [Incidence.size_touch]
    exact h.size
  · intro k
    have hcount := h.counts k
    rw [List.count_cons] at hcount
    have hgain : (if i < k ∧ j = k then 1 else 0) ≤ if (j == k) = true then 1 else 0 := by
      by_cases hjk : j = k
      · rw [if_pos (beq_iff_eq.2 hjk)]
        split <;> omega
      · rw [if_neg fun he => hjk he.2]
        exact Nat.zero_le _
    rw [Incidence.getD_touch hj]
    omega

/-- Walking the terms of a document leaves the room that the documents after it need. -/
theorem Room.walk {i terms : Nat} {state : List Nat × Array Nat} {met later : List Nat}
    (h : Room state terms (met ++ later)) :
    met.foldlM (Checked.touch i) state = some (met.foldl (Incidence.touch i) state) ∧
      Room (met.foldl (Incidence.touch i) state) terms later :=
  foldlM_eq_some (fun state met => Room state terms (met ++ later)) (fun _ _ _ hroom => hroom.touch) h

/-- An incidence whose postings are documents, no more for any term than a counter can say. -/
structure Fits (inc : Incidence) : Prop where
  proper : inc.Proper
  positions : ∀ i < inc.termCount, ∀ doc ∈ inc.postingsOf i, doc < inc.documents.size
  countable : ∀ i < inc.termCount, (inc.postingsOf i).length < 2 ^ 32

/-- The shared documents of a term are counted. -/
theorem countShared_eq (h : Fits inc) {i : Nat} (hi : i < inc.termCount) :
    countShared inc i inc.scratch = some (inc.countShared i inc.scratch) := by
  -- A later term is met once in every document that it shares with `i`, so the postings of `i` bound its count.
  have hstart : Room ([], inc.scratch) inc.termCount ((inc.postingsOf i).flatMap inc.termsOf) := by
    refine ⟨inc.size_scratch, ?_, ?_⟩
    · intro j hj
      obtain ⟨doc, -, hmem⟩ := List.mem_flatMap.1 hj
      exact h.proper.bounded doc j hmem
    · intro j
      rw [inc.getD_scratch, Nat.zero_add, Incidence.count_met h.proper]
      exact Nat.lt_of_le_of_lt List.countP_le_length (h.countable i hi)
  rw [countShared, bind_of_eq (getElem?_postingsOf hi)]
  refine (foldlM_eq_some (g := fun state doc => (inc.termsOf doc).foldl (Incidence.touch i) state)
    (fun state docs => (∀ doc ∈ docs, doc < inc.documents.size) ∧
      Room state inc.termCount (docs.flatMap inc.termsOf)) ?_ ⟨h.positions i hi, hstart⟩).1
  rintro state doc docs ⟨hall, hroom⟩
  obtain ⟨hdoc, hrest⟩ := List.forall_mem_cons.1 hall
  obtain ⟨hwalk, hleft⟩ := hroom.walk (i := i)
  rw [getElem?_termsOf hdoc]
  exact ⟨hwalk, hrest, hleft⟩

theorem collect_eq {i : Nat} (hi : i < inc.termCount) {js : List Nat} {counts : Array Nat}
    (hsize : counts.size = inc.termCount) (hjs : ∀ j ∈ js, j < inc.termCount) :
    collect inc τ f i counts js = some (inc.collect τ f i counts js) := by
  induction js generalizing counts with
  | nil => rfl
  | cons j js ih =>
    obtain ⟨hj, hrest⟩ := List.forall_mem_cons.1 hjs
    have hlt : j < counts.size := hsize.symm ▸ hj
    have hcleared : (counts.modify j fun _ => 0).size = inc.termCount := Array.size_modify.trans hsize
    simp only [collect, getElem?_eq_getD hlt 0, modify_eq hlt, getElem?_postingsOf hi, getElem?_postingsOf hj,
      ih hcleared hrest, Option.bind_eq_bind, Option.bind_some]
    rfl

/-- A row is found without a miss. -/
theorem row_eq (h : Fits inc) {i : Nat} (hi : i < inc.termCount) :
    row inc τ f i inc.scratch = some (inc.row τ f i inc.scratch) := by
  obtain ⟨hsize, -, hnoted⟩ := Incidence.getD_countShared h.proper i
  rw [row, bind_of_eq (countShared_eq h hi)]
  refine collect_eq hi hsize ?_
  intro j hj
  rw [Ascending.mem_ofList, List.mem_reverse, hnoted j] at hj
  by_contra hge
  rw [Array.getD_eq_getD_getElem?, Array.getElem?_eq_none (hsize.trans_le (Nat.le_of_not_lt hge))] at hj
  exact Nat.lt_irrefl 0 hj

theorem rowsOf_eq (h : Fits inc) {is : List Nat} (his : ∀ i ∈ is, i < inc.termCount) :
    rowsOf inc τ f inc.scratch is = some (inc.rowsOf τ f inc.scratch is) := by
  induction is with
  | nil => rfl
  | cons i is ih =>
    obtain ⟨hi, hrest⟩ := List.forall_mem_cons.1 his
    have hafter : (inc.row τ f i inc.scratch).2 = inc.scratch := by rw [Incidence.row_eq_linkedRow h.proper]
    rw [rowsOf, bind_of_eq (row_eq h hi), hafter, ih hrest, Incidence.rowsOf]
    simp only [hafter]
    rfl

/-! ## The space -/

/-- The incidence of a corpus, its terms numbered locally. -/
def incidenceOf (c : Corpus α) : Option Incidence := do
  let documents ← c.vectors.mapM fun v => v.terms.mapM fun t => c.vocabulary.idxOf? t
  let postings ← invert c.vocabulary.length 0 documents
  return ⟨documents.toArray, postings⟩

/-- The tolerance space over an incidence. Its classes are read off the graph of its relation, if there is room for it. -/
def relate (c : Corpus α) (τ : α) (f : Measure α) (inc : Incidence) : Option (ToleranceSpace α) := do
  let rows ← rowsOf inc τ f inc.scratch (List.range inc.termCount)
  let graph ← RelationGraph.ofRows? c.vocabulary rows.1
  return {
    threshold := τ
    terms := c.vocabulary.toArray
    incidence := inc
    rows := rows.1.toArray
    classes := graph.classLists.toArray }

/-- The tolerance space of a corpus, for a threshold in its range. -/
def build (c : Corpus α) (τ : α) (f : Measure α) : Option (Except Failure (ToleranceSpace α)) :=
  match Failure.unless (Scalar.withinAbove 0 1 τ) "tolerance_threshold" "must be in (0, 1]" with
  | .error failure => some (.error failure)
  | .ok () => do
    let inc ← incidenceOf c
    let s ← relate c τ f inc
    return .ok s

/-- The terms of the vectors all have local numbers. -/
theorem numbered_eq (c : Corpus α) :
    c.vectors.mapM (fun v => v.terms.mapM fun t => c.vocabulary.idxOf? t) = some (ToleranceSpace.numbered c) := by
  refine mapM_eq_some ?_
  intro v hv
  refine mapM_eq_some ?_
  intro t ht
  exact c.ascending_vocabulary.idxOf?_of_mem (ToleranceSpace.mem_vocabulary_of_mem_terms hv ht)

/-- The postings are places of the corpus, and the numbers in the documents are places of the vocabulary. -/
theorem incidenceOf_eq (c : Corpus α) :
    incidenceOf c = some (Incidence.ofDocuments c.vocabulary.length (ToleranceSpace.numbered c)) := by
  rw [incidenceOf, bind_of_eq (numbered_eq c), invert_eq (ToleranceSpace.lt_of_mem_numbered c)]
  rfl

/-- The postings of the space are the holders of its terms. -/
theorem exists_postingsOf {c : Corpus α} {s : ToleranceSpace α} (h : ToleranceSpace.build c τ f = .ok s) {i : Nat}
    (hi : i < s.incidence.termCount) : ∃ t ∈ c.vocabulary, s.incidence.postingsOf i = c.holders t := by
  rw [ToleranceSpace.termCount_incidence h] at hi
  obtain ⟨hmem, hidx⟩ := ToleranceSpace.termAt_mem h hi
  refine ⟨s.termAt i, hmem, ?_⟩
  rw [← ToleranceSpace.postingsOf_idxOf h hmem, hidx]

theorem fits_of_build {c : Corpus α} {s : ToleranceSpace α} (h : ToleranceSpace.build c τ f = .ok s)
    (hholders : ∀ t, (c.holders t).length < 2 ^ 32) : Fits s.incidence where
  proper := ToleranceSpace.proper_incidence h
  positions := by
    have hdocuments : s.incidence.documents.size = c.size := by
      rw [ToleranceSpace.incidence_of_build h]
      simp [Incidence.ofDocuments, ToleranceSpace.numbered, Corpus.vectors, Corpus.size]
    intro i hi doc hdoc
    obtain ⟨t, -, hpostings⟩ := exists_postingsOf h hi
    rw [hpostings] at hdoc
    rw [hdocuments]
    exact (c.mem_holders.1 hdoc).1
  countable := by
    intro i hi
    obtain ⟨t, -, hpostings⟩ := exists_postingsOf h hi
    rw [hpostings]
    exact hholders t

/-- A space is found again from its incidence, if there is room for its relation. -/
theorem relate_eq {c : Corpus α} {s : ToleranceSpace α} (h : ToleranceSpace.build c τ f = .ok s)
    (hholders : ∀ t, (c.holders t).length < 2 ^ 32) (hterms : c.vocabulary.length < 2 ^ 32) :
    relate c τ f s.incidence = if s.relationSize < 2 ^ 32 then some s else none := by
  have hrows : rowsOf s.incidence τ f s.incidence.scratch (List.range s.incidence.termCount) =
      some (s.incidence.rowsOf τ f s.incidence.scratch (List.range s.incidence.termCount)) :=
    rowsOf_eq (fits_of_build h hholders) fun i hi => List.mem_range.1 hi
  have hkept : (s.incidence.rowsOf τ f s.incidence.scratch (List.range s.incidence.termCount)).1 = s.rows.toList := by
    rw [ToleranceSpace.eq_of_build h]
    rfl
  rw [relate, bind_of_eq hrows, hkept, RelationGraph.ofRows?_of_build h hterms]
  by_cases hroom : s.relationSize < 2 ^ 32
  · simp only [if_pos hroom, Option.bind_eq_bind, Option.bind_some, (RelationGraph.shows_of_build h).classLists]
    rw [ToleranceSpace.eq_of_build h]
    rfl
  · rw [if_neg hroom, if_neg hroom]
    rfl

/-- For a corpus with less than `2 ^ 32` terms and less than `2 ^ 32` documents for each, building a space succeeds exactly
if there is room for its relation, and then misses nothing. -/
theorem build_eq {c : Corpus α} {s : ToleranceSpace α} (h : ToleranceSpace.build c τ f = .ok s)
    (hholders : ∀ t, (c.holders t).length < 2 ^ 32) (hterms : c.vocabulary.length < 2 ^ 32) :
    build c τ f = if s.relationSize < 2 ^ 32 then some (.ok s) else none := by
  have hrange : Failure.unless (Scalar.withinAbove 0 1 τ) "tolerance_threshold" "must be in (0, 1]" = .ok () :=
    if_pos (Failure.of_unless_bind h).1
  rw [build, hrange]
  simp only
  rw [bind_of_eq (incidenceOf_eq c), ← ToleranceSpace.incidence_of_build h, relate_eq h hholders hterms]
  split <;> rfl

end Checked

end ToleranceClustering
