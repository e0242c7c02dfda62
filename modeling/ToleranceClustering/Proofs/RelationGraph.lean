import ToleranceClustering.Proofs.ToleranceRelation

/-!
# The graph of a relation

A space keeps its relation in rows. The same relation can be entered into a graph, node by node and edge by edge, and asked
for there. What a graph is taken to do is said here. It numbers its nodes and its edges from zero in the order in which they
are added, in numbers of 32 bits of which the largest stands for none, so that it has room for less than `2 ^ 32` of each. An
edge joins two nodes that are there, is found from either end, and is not looked for before it is added: two edges may join
the same nodes. The neighbours of a node are the other ends of its edges.

A relation of less than `2 ^ 32` terms fits into a graph exactly if it has less than `2 ^ 32` pairs (`ofRows?_of_build`). Asked
for pairs, similarities, classes and its size, the graph then says what the rows of the space say (`shows_of_build`).
-/

namespace ToleranceClustering

/-- A graph without directions: the terms at its nodes, and its edges with the numbers of their ends and their weights, both
in the order in which they were added. -/
structure RelationGraph (α : Type) where
  nodes : List TermId
  edges : List (Nat × Nat × α)

namespace RelationGraph

variable {α : Type}

/-! ## What a graph does -/

/-- The graph with one more node. -/
def addNode (g : RelationGraph α) (t : TermId) : RelationGraph α := { g with nodes := g.nodes ++ [t] }

/-- The graph with one more node, if there is a number left for it. -/
def addNode? (g : RelationGraph α) (t : TermId) : Option (RelationGraph α) :=
  if g.nodes.length + 1 < 2 ^ 32 then some (g.addNode t) else none

/-- The graph with one more edge. -/
def addEdge (g : RelationGraph α) (e : Nat × Nat × α) : RelationGraph α := { g with edges := g.edges ++ [e] }

/-- The graph with one more edge, if its ends are nodes and there is a number left for it. -/
def addEdge? (g : RelationGraph α) (e : Nat × Nat × α) : Option (RelationGraph α) :=
  if e.1 < g.nodes.length ∧ e.2.1 < g.nodes.length then
    if g.edges.length + 1 < 2 ^ 32 then some (g.addEdge e) else none
  else none

/-- The number of edges. -/
def edgeCount (g : RelationGraph α) : Nat := g.edges.length

/-- Whether an edge joins two nodes, whichever of them it was added from. -/
def joins (i j : Nat) (e : Nat × Nat × α) : Bool := (e.1 == i && e.2.1 == j) || (e.1 == j && e.2.1 == i)

/-- The number of an edge between two nodes. -/
def findEdge? (g : RelationGraph α) (i j : Nat) : Option Nat := g.edges.findIdx? (joins i j)

/-- The weight of the edge with a number. -/
def edgeWeight? (g : RelationGraph α) (n : Nat) : Option α := g.edges[n]?.map fun e => e.2.2

/-- The other ends of the edges of a node: first those of the edges added from it, then of those added to it, the latest
edge first. -/
def neighbors (g : RelationGraph α) (i : Nat) : List Nat :=
  (g.edges.reverse.filter fun e => e.1 == i).map (fun e => e.2.1) ++
    (g.edges.reverse.filter fun e => e.2.1 == i && e.1 != i).map fun e => e.1

/-- For each node, its neighbours and itself, ascending. -/
def classLists (g : RelationGraph α) : List (List Nat) :=
  (List.range g.nodes.length).map fun i => Ascending.ofList (g.neighbors i ++ [i])

/-- The edges that rows hold, row by row. -/
def pairs (rows : List (List (Nat × α))) : List (Nat × Nat × α) :=
  rows.zipIdx.flatMap fun p => p.1.map fun e => (p.2, e.1, e.2)

/-- The graph with the terms of a relation as its nodes, and an edge for every pair in its rows. -/
def ofRows? (terms : List TermId) (rows : List (List (Nat × α))) : Option (RelationGraph α) := do
  let g ← terms.foldlM addNode? ⟨[], []⟩
  (pairs rows).foldlM addEdge? g

/-! ## Room -/

/-- Things that are numbered one after another get their numbers as long as these are below `2 ^ 32 - 1`. What is given out
already is the size of the state, and `inv` says what the steps need besides. -/
theorem foldlM_numbered {σ β : Type} {add? : σ → β → Option σ} (add : σ → β → σ) (size : σ → Nat) (inv : σ → Prop)
    {xs : List β} (hstep : ∀ st, inv st → ∀ x ∈ xs, inv (add st x) ∧ size (add st x) = size st + 1 ∧
      add? st x = if size st + 1 < 2 ^ 32 then some (add st x) else none)
    {st : σ} (hinv : inv st) (hroom : size st < 2 ^ 32) :
    xs.foldlM add? st = if size st + xs.length < 2 ^ 32 then some (xs.foldl add st) else none := by
  induction xs generalizing st with
  | nil => exact (if_pos hroom).symm
  | cons x xs ih =>
    obtain ⟨hnext, hsize, hx⟩ := hstep st hinv x List.mem_cons_self
    have hlength : size st + (x :: xs).length = size st + 1 + xs.length := by
      rw [List.length_cons]
      omega
    rw [List.foldlM_cons, hx, List.foldl_cons, hlength, ← hsize]
    by_cases hlt : size (add st x) < 2 ^ 32
    · rw [if_pos hlt]
      exact ih (fun st hst y hy => hstep st hst y (List.mem_cons_of_mem x hy)) hnext hlt
    · rw [if_neg hlt, if_neg (by omega)]
      rfl

/-- Nodes added one after another stand behind those that were there. -/
theorem foldl_addNode (ts : List TermId) (g : RelationGraph α) : ts.foldl addNode g = ⟨g.nodes ++ ts, g.edges⟩ := by
  induction ts generalizing g with
  | nil => simp
  | cons t ts ih => simp [ih, addNode]

/-- So do edges. -/
theorem foldl_addEdge (es : List (Nat × Nat × α)) (g : RelationGraph α) :
    es.foldl addEdge g = ⟨g.nodes, g.edges ++ es⟩ := by
  induction es generalizing g with
  | nil => simp
  | cons e es ih => simp [ih, addEdge]

/-- A graph takes the rows of a relation exactly if it has room for its terms and for its pairs. -/
theorem ofRows?_eq {terms : List TermId} {rows : List (List (Nat × α))}
    (hends : ∀ e ∈ pairs rows, e.1 < terms.length ∧ e.2.1 < terms.length) :
    ofRows? terms rows =
      if terms.length < 2 ^ 32 ∧ (pairs rows).length < 2 ^ 32 then some ⟨terms, pairs rows⟩ else none := by
  have hnodes : terms.foldlM addNode? (⟨[], []⟩ : RelationGraph α) =
      if terms.length < 2 ^ 32 then some ⟨terms, []⟩ else none := by
    rw [foldlM_numbered addNode (fun g => g.nodes.length) (fun _ => True), foldl_addNode]
    · simp
    · exact fun g _ t _ => ⟨trivial, by simp [addNode], rfl⟩
    · trivial
    · simp
  have hedges : (pairs rows).foldlM addEdge? ⟨terms, []⟩ =
      if (pairs rows).length < 2 ^ 32 then some ⟨terms, pairs rows⟩ else none := by
    rw [foldlM_numbered addEdge (fun g => g.edges.length) (fun g => g.nodes = terms), foldl_addEdge]
    · simp
    · rintro g rfl e he
      exact ⟨rfl, by simp [addEdge], if_pos (hends e he)⟩
    · rfl
    · simp
  rw [ofRows?, hnodes]
  by_cases hterms : terms.length < 2 ^ 32
  · simp only [hterms, true_and]
    exact hedges
  · simp only [hterms, false_and, if_false]
    rfl

/-! ## Rows -/

/-- Rows in which each place has later places only, ascending. -/
def Upper (rows : List (List (Nat × α))) : Prop :=
  ∀ (i : Nat) (row : List (Nat × α)), rows[i]? = some row →
    Ascending (row.map Prod.fst) ∧ ∀ e ∈ row, i < e.1 ∧ e.1 < rows.length

variable {rows : List (List (Nat × α))}

/-- A pair is an entry in the row of its first number. -/
theorem mem_pairs {i j : Nat} {x : α} : (i, j, x) ∈ pairs rows ↔ ∃ row, rows[i]? = some row ∧ (j, x) ∈ row := by
  simp only [pairs, List.mem_flatMap, List.mem_map, Prod.exists, Prod.mk.injEq]
  constructor
  · rintro ⟨row, n, hrow, k, y, hmem, rfl, rfl, rfl⟩
    exact ⟨row, List.mk_mem_zipIdx_iff_getElem?.1 hrow, hmem⟩
  · rintro ⟨row, hrow, hmem⟩
    exact ⟨row, i, List.mk_mem_zipIdx_iff_getElem?.2 hrow, j, x, hmem, rfl, rfl, rfl⟩

/-- Such rows have no place twice. -/
theorem Upper.nodup (h : Upper rows) : ∀ doc ∈ rows.map (fun row => row.map Prod.fst), doc.Nodup := by
  intro doc hdoc
  obtain ⟨row, hrow, rfl⟩ := List.mem_map.1 hdoc
  obtain ⟨i, hi⟩ := List.getElem?_of_mem hrow
  exact (h i row hi).1.nodup

/-- A pair has its smaller number first, and both are places of the rows. -/
theorem Upper.lt_of_mem_pairs (h : Upper rows) {e : Nat × Nat × α} (he : e ∈ pairs rows) :
    e.1 < e.2.1 ∧ e.2.1 < rows.length := by
  obtain ⟨row, hrow, hmem⟩ := mem_pairs.1 he
  exact (h e.1 row hrow).2 (e.2.1, e.2.2) hmem

/-- A pair is in the row of its smaller number, which has one weight for the larger. -/
theorem Upper.mem_pairs_iff_stored (h : Upper rows) {i j : Nat} {x : α} :
    (Nat.min i j, Nat.max i j, x) ∈ pairs rows ↔ ToleranceSpace.stored rows.toArray i j = some x := by
  rw [mem_pairs, ToleranceSpace.stored, Array.getD_eq_getD_getElem?, List.getElem?_toArray]
  cases hrow : rows[Nat.min i j]? with
  | none => simp
  | some row =>
    -- An ascending row is a table.
    have hlookup : (Nat.max i j, x) ∈ row ↔ row.lookup (Nat.max i j) = some x :=
      Table.mem_entries (t := ⟨row, (h _ row hrow).1⟩)
    simpa using hlookup

/-! ## Asking the graph -/

/-- The neighbours of a node are at the other ends of its edges. -/
theorem mem_neighbors {g : RelationGraph α} {i j : Nat} :
    j ∈ g.neighbors i ↔ ∃ x, (i, j, x) ∈ g.edges ∨ (j, i, x) ∈ g.edges := by
  simp only [neighbors, List.mem_append, List.mem_map, List.mem_filter, List.mem_reverse, Prod.exists, beq_iff_eq,
    Bool.and_eq_true, bne_iff_ne]
  constructor
  · rintro (⟨_, _, x, ⟨he, rfl⟩, rfl⟩ | ⟨_, _, x, ⟨he, rfl, -⟩, rfl⟩)
    · exact ⟨x, Or.inl he⟩
    · exact ⟨x, Or.inr he⟩
  · rintro ⟨x, he | he⟩
    · exact Or.inl ⟨i, j, x, ⟨he, rfl⟩, rfl⟩
    · by_cases hij : j = i
      · -- An edge from a node to itself is listed once, among those added from it.
        subst hij
        exact Or.inl ⟨j, j, x, ⟨he, rfl⟩, rfl⟩
      · exact Or.inr ⟨j, i, x, ⟨he, rfl, hij⟩, rfl⟩

/-- An edge with its smaller end first joins two nodes if these are its ends. -/
theorem joins_iff {e : Nat × Nat × α} (h : e.1 < e.2.1) {i j : Nat} :
    joins i j e = true ↔ e.1 = Nat.min i j ∧ e.2.1 = Nat.max i j := by
  have hmin : Nat.min i j = min i j := rfl
  have hmax : Nat.max i j = max i j := rfl
  simp only [joins, Bool.or_eq_true, Bool.and_eq_true, beq_iff_eq, hmin, hmax]
  omega

/-- The rows have, for two places, the weight of a pair that joins them. -/
theorem Upper.find?_joins (h : Upper rows) (i j : Nat) :
    ((pairs rows).find? (joins i j)).map (fun e => e.2.2) = ToleranceSpace.stored rows.toArray i j := by
  have hfound : ∀ e, (pairs rows).find? (joins i j) = some e → (Nat.min i j, Nat.max i j, e.2.2) ∈ pairs rows := by
    intro e he
    have hmem := List.mem_of_find?_eq_some he
    obtain ⟨hmin, hmax⟩ := (joins_iff (h.lt_of_mem_pairs hmem).1).1 (List.find?_some he)
    rw [← hmin, ← hmax]
    exact hmem
  refine Option.ext fun x => ?_
  rw [Option.map_eq_some_iff]
  constructor
  · rintro ⟨e, he, rfl⟩
    exact h.mem_pairs_iff_stored.1 (hfound e he)
  · intro hx
    have hmem := h.mem_pairs_iff_stored.2 hx
    have hjoins := (joins_iff (h.lt_of_mem_pairs hmem).1).2 ⟨rfl, rfl⟩
    obtain ⟨e, he⟩ := Option.isSome_iff_exists.1 (List.find?_isSome.2 ⟨_, hmem, hjoins⟩)
    have hweight := h.mem_pairs_iff_stored.1 (hfound e he)
    exact ⟨e, he, Option.some.inj (hweight.symm.trans hx)⟩

/-- Two nodes are found to be joined where the row of the smaller number has the larger. -/
theorem isSome_findEdge? (h : Upper rows) (terms : List TermId) (i j : Nat) :
    ((⟨terms, pairs rows⟩ : RelationGraph α).findEdge? i j).isSome = ToleranceSpace.related rows.toArray i j := by
  have hstored : ToleranceSpace.related rows.toArray i j = (ToleranceSpace.stored rows.toArray i j).isSome := rfl
  rw [hstored, ← h.find?_joins, Option.isSome_map, findEdge?, List.findIdx?_isSome, List.isSome_find?]

/-- The edge that is found between two nodes has the weight that the rows have for them. -/
theorem findEdge?_bind_edgeWeight? (h : Upper rows) (terms : List TermId) (i j : Nat) :
    ((⟨terms, pairs rows⟩ : RelationGraph α).findEdge? i j).bind (edgeWeight? ⟨terms, pairs rows⟩) =
      ToleranceSpace.stored rows.toArray i j := by
  rw [← h.find?_joins, List.find?_eq_bind_findIdx?_getElem?, Option.map_bind]
  rfl

/-- The earlier places whose row has a place are those with a pair that ends there. -/
theorem Upper.mem_earlier (h : Upper rows) {i : Nat} (hi : i < rows.length) {j : Nat} :
    j ∈ (ToleranceSpace.earlier rows).getD i [] ↔ ∃ x, (j, i, x) ∈ pairs rows := by
  rw [ToleranceSpace.earlier, Incidence.mem_getD_invert hi h.nodup]
  simp only [mem_pairs, List.getElem?_map, Option.map_eq_some_iff, Nat.zero_add]
  constructor
  · rintro ⟨_, _, ⟨row, hrow, rfl⟩, rfl, hmem⟩
    obtain ⟨e, he, rfl⟩ := List.mem_map.1 hmem
    exact ⟨e.2, row, hrow, he⟩
  · rintro ⟨x, row, hrow, hx⟩
    exact ⟨j, row.map Prod.fst, ⟨row, hrow, rfl⟩, rfl, List.mem_map_of_mem hx⟩

/-- The neighbours of a place, with itself, are its earlier places, itself and those of its row. -/
theorem Upper.ofList_neighbors (h : Upper rows) (terms : List TermId) {i : Nat} {row : List (Nat × α)}
    (hrow : rows[i]? = some row) :
    Ascending.ofList (neighbors ⟨terms, pairs rows⟩ i ++ [i]) =
      (ToleranceSpace.earlier rows).getD i [] ++ i :: row.map Prod.fst := by
  have hi : i < rows.length := (List.getElem?_eq_some_iff.1 hrow).1
  obtain ⟨hasc, hbound⟩ := h i row hrow
  have hearlier : ∀ j ∈ (ToleranceSpace.earlier rows).getD i [], j < i := by
    intro j hj
    obtain ⟨x, hx⟩ := (h.mem_earlier hi).1 hj
    exact (h.lt_of_mem_pairs hx).1
  have hlater : ∀ j ∈ row.map Prod.fst, i < j := by
    intro j hj
    obtain ⟨e, he, rfl⟩ := List.mem_map.1 hj
    exact (hbound e he).1
  have hleaving : ∀ j, j ∈ row.map Prod.fst ↔ ∃ x, (i, j, x) ∈ pairs rows := by
    intro j
    simp [mem_pairs, hrow]
  refine Ascending.ext (Ascending.ascending_ofList _) ?_ ?_
  · refine List.pairwise_append.2 ⟨Incidence.ascending_getD_invert hi h.nodup 0, ?_, ?_⟩
    · exact List.pairwise_cons.2 ⟨hlater, hasc⟩
    · intro j hj k hk
      rcases List.mem_cons.1 hk with rfl | hk
      · exact hearlier j hj
      · exact Nat.lt_trans (hearlier j hj) (hlater k hk)
  · intro j
    rw [Ascending.mem_ofList, List.mem_append, mem_neighbors, List.mem_singleton, List.mem_append, List.mem_cons,
      h.mem_earlier hi, hleaving, exists_or]
    tauto

/-- The classes that the graph lists are those that are read off the rows. -/
theorem classLists_eq (h : Upper rows) {terms : List TermId} (hlength : terms.length = rows.length) :
    (⟨terms, pairs rows⟩ : RelationGraph α).classLists = ToleranceSpace.classLists rows := by
  refine List.ext_getElem? ?_
  intro i
  rw [classLists, hlength, ToleranceSpace.classLists, List.getElem?_map, List.getElem?_map, List.getElem?_zipIdx]
  cases hrow : rows[i]? with
  | none =>
    rw [List.getElem?_eq_none (by simpa using List.getElem?_eq_none_iff.1 hrow)]
    rfl
  | some row =>
    rw [List.getElem?_range (List.getElem?_eq_some_iff.1 hrow).1, Option.map_some, Option.map_some, Option.map_some,
      Nat.zero_add, h.ofList_neighbors terms hrow]

/-! ## The graph of a space -/

/-- What a graph says, asked for all that a space is asked for: its terms, whether two of them are joined and with which
weight, their classes, and how many pairs there are. -/
structure Shows [Scalar α] (g : RelationGraph α) (s : ToleranceSpace α) : Prop where
  nodes : g.nodes = s.terms.toList
  related : ∀ i j, (g.findEdge? i j).isSome = ToleranceSpace.related s.rows i j
  weight : ∀ i j, (g.findEdge? i j).bind g.edgeWeight? = (s.rows.getD (Nat.min i j) []).lookup (Nat.max i j)
  classLists : g.classLists = s.classes.toList
  edgeCount : g.edgeCount = s.relationSize

variable [Scalar α] {c : Corpus α} {τ : α} {f : Measure α} {s : ToleranceSpace α}

/-- The rows of a space have later places only. -/
theorem upper_of_build (h : ToleranceSpace.build c τ f = .ok s) : Upper s.rows.toList := by
  intro i row hrow
  rw [ToleranceSpace.rows_of_build h, List.getElem?_map, Option.map_eq_some_iff] at hrow
  obtain ⟨j, hj, rfl⟩ := hrow
  obtain ⟨hi, hij⟩ := List.getElem?_eq_some_iff.1 hj
  rw [List.getElem_range] at hij
  subst hij
  refine ⟨Incidence.ascending_linkedRow i, ?_⟩
  intro e he
  rw [ToleranceSpace.rows_of_build h, List.length_map, List.length_range, ← ToleranceSpace.termCount_incidence h]
  exact Incidence.lt_of_mem_linkedRow (ToleranceSpace.proper_incidence h) he

/-- A space has a row for every term. -/
theorem length_rows (h : ToleranceSpace.build c τ f = .ok s) : s.rows.toList.length = c.vocabulary.length := by
  rw [ToleranceSpace.rows_of_build h, List.length_map, List.length_range]

/-- The rows of a space hold as many pairs as its relation. -/
theorem length_pairs (s : ToleranceSpace α) : (pairs s.rows.toList).length = s.relationSize := by
  have hedges : s.edges = (pairs s.rows.toList).map fun e => (s.termAt e.1, s.termAt e.2.1, e.2.2) := by
    rw [ToleranceSpace.edges, pairs, List.map_flatMap]
    simp only [List.map_map]
    rfl
  rw [ToleranceSpace.relationSize_eq_length, hedges, List.length_map]

/-- A graph takes the relation of a space, if its terms can be numbered, exactly where it has room for the pairs. -/
theorem ofRows?_of_build (h : ToleranceSpace.build c τ f = .ok s) (hterms : c.vocabulary.length < 2 ^ 32) :
    ofRows? c.vocabulary s.rows.toList =
      if s.relationSize < 2 ^ 32 then some ⟨c.vocabulary, pairs s.rows.toList⟩ else none := by
  have hends : ∀ e ∈ pairs s.rows.toList, e.1 < c.vocabulary.length ∧ e.2.1 < c.vocabulary.length := by
    intro e he
    obtain ⟨hlt, hbound⟩ := (upper_of_build h).lt_of_mem_pairs he
    rw [length_rows h] at hbound
    exact ⟨Nat.lt_trans hlt hbound, hbound⟩
  rw [ofRows?_eq hends, length_pairs]
  simp only [hterms, true_and]

/-- The graph of a space says what the space says. -/
theorem shows_of_build (h : ToleranceSpace.build c τ f = .ok s) : Shows ⟨c.vocabulary, pairs s.rows.toList⟩ s where
  nodes := by rw [(ToleranceSpace.fields_of_build h).1]
  related := isSome_findEdge? (upper_of_build h) c.vocabulary
  weight := findEdge?_bind_edgeWeight? (upper_of_build h) c.vocabulary
  classLists := by
    rw [classLists_eq (upper_of_build h) (length_rows h).symm, ToleranceSpace.eq_of_build h]
  edgeCount := length_pairs s

end RelationGraph

end ToleranceClustering
