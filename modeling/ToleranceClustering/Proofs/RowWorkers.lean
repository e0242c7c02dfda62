import ToleranceClustering.Proofs.Checked.Space
import ToleranceClustering.Proofs.ToleranceRelation

/-!
# Rows found side by side

The rows of a tolerance space may be found by several workers. Each counts all its rows in one array of its own, so a count
that is left behind would spoil a later row of the same worker, and which row that is would depend on who takes which rows.
None is left behind: whatever zeros a row was counted in are zeros again, and the row is the plain one (`ExactRow`).

`Crew.Step` is a step of any worker, and `Crew.Reaches` any sequence of steps in any order, with any assignment of rows.
Main statement: `rows_do_not_depend_on_workers`. Every row is exact, the rows that any workers hand in are those counted
each in a new array, and a space that is put together from them is the space that one worker builds.
-/

namespace ToleranceClustering

namespace Incidence

variable {α : Type} [Scalar α]

/-! ## Documents that hold a term -/

/-- The two directions fit together: nothing is listed twice, and a document lists a term exactly if the term lists it. -/
structure Consistent (inc : Incidence) : Prop where
  nodup_termsOf : ∀ doc, (inc.termsOf doc).Nodup
  nodup_postingsOf : ∀ i, (inc.postingsOf i).Nodup
  mem_postingsOf : ∀ i doc, doc ∈ inc.postingsOf i ↔ i ∈ inc.termsOf doc

/-- The documents that hold a term, found by looking at every document. -/
def holders (inc : Incidence) (i : Nat) : List Nat :=
  (List.range inc.documents.size).filter fun doc => (inc.termsOf doc).contains i

/-- The number of documents that hold both terms, found by looking at every document. -/
def jointHolders (inc : Incidence) (i j : Nat) : Nat :=
  ((List.range inc.documents.size).filter fun doc => (inc.termsOf doc).contains i && (inc.termsOf doc).contains j).length

variable {inc : Incidence} {τ : α} {f : Measure α}

/-- Beyond the last term nothing is listed. -/
theorem postingsOf_of_le {i : Nat} (h : inc.termCount ≤ i) : inc.postingsOf i = [] := by
  rw [postingsOf, Array.getD_eq_getD_getElem?, Array.getElem?_eq_none h]
  rfl

theorem lt_termCount_of_mem {i doc : Nat} (h : doc ∈ inc.postingsOf i) : i < inc.termCount := by
  by_contra hge
  rw [postingsOf_of_le (Nat.le_of_not_lt hge)] at h
  exact List.not_mem_nil h

theorem lt_size_of_mem {i doc : Nat} (h : i ∈ inc.termsOf doc) : doc < inc.documents.size := by
  by_contra hge
  rw [termsOf, Array.getD_eq_getD_getElem?, Array.getElem?_eq_none (Nat.le_of_not_lt hge)] at h
  exact List.not_mem_nil h

theorem Consistent.proper (h : inc.Consistent) : inc.Proper where
  nodup := h.nodup_termsOf
  bounded := fun doc j hj => lt_termCount_of_mem ((h.mem_postingsOf j doc).2 hj)

theorem Consistent.perm_holders (h : inc.Consistent) (i : Nat) : (inc.postingsOf i).Perm (inc.holders i) := by
  have hnodup : (inc.holders i).Nodup := List.nodup_range.filter _
  rw [List.perm_ext_iff_of_nodup (h.nodup_postingsOf i) hnodup]
  intro doc
  rw [h.mem_postingsOf, holders, List.mem_filter, List.mem_range, List.contains_iff_mem]
  exact ⟨fun hmem => ⟨lt_size_of_mem hmem, hmem⟩, And.right⟩

theorem Consistent.frequency_eq (h : inc.Consistent) (i : Nat) : inc.frequency i = (inc.holders i).length :=
  (h.perm_holders i).length_eq

/-- What a row counts for a later term is the number of documents that hold both. -/
theorem Consistent.shared_eq (h : inc.Consistent) (i j : Nat) : inc.shared i j = inc.jointHolders i j := by
  rw [shared, (h.perm_holders i).countP_eq, holders, List.countP_filter, jointHolders, List.countP_eq_length_filter]
  simp only [Bool.and_comm]

/-! ## One row -/

/-- The later terms that share a document with the term and are similar enough, by the exact number of documents that hold
both. -/
structure ExactRow (inc : Incidence) (τ : α) (f : Measure α) (i : Nat) (row : List (Nat × α)) : Prop where
  ascending : Ascending (row.map Prod.fst)
  mem_iff : ∀ j x, (j, x) ∈ row ↔ i < j ∧ 0 < inc.jointHolders i j ∧
    x = f (inc.jointHolders i j) (inc.holders i).length (inc.holders j).length ∧ τ ≤ x

theorem Consistent.exactRow (h : inc.Consistent) (i : Nat) : inc.ExactRow τ f i (inc.linkedRow τ f i) where
  ascending := ascending_linkedRow i
  mem_iff := by
    intro j x
    rw [mem_linkedRow h.proper, link?_eq_some, h.shared_eq, h.frequency_eq, h.frequency_eq]

/-- A term is noted when it is met first, and not again. -/
theorem nodup_foldl_touch {i : Nat} {js : List Nat} {state : List Nat × Array Nat} (hjs : ∀ j ∈ js, j < state.2.size)
    (hnoted : Noted state) (hnodup : state.1.Nodup) : (js.foldl (touch i) state).1.Nodup := by
  induction js generalizing state with
  | nil => exact hnodup
  | cons j js ih =>
    obtain ⟨hj, hjs⟩ := List.forall_mem_cons.1 hjs
    have hjs' : ∀ l ∈ js, l < (touch i state j).2.size := by rwa [size_touch]
    refine ih hjs' (hnoted.touch hj) ?_
    rcases Nat.lt_or_ge i j with hlt | hle
    · rw [touch_of_lt hlt]
      by_cases hfirst : state.2.getD j 0 = 0
      · have hnew : j ∉ state.1 := by
          rw [hnoted j, hfirst]
          exact Nat.lt_irrefl 0
        rw [if_pos hfirst]
        exact List.nodup_cons.2 ⟨hnew, hnodup⟩
      · rw [if_neg hfirst]
        exact hnodup
    · rw [touch_of_le hle]
      exact hnodup

theorem Clear.nodup_met {counts : Array Nat} (hc : inc.Clear counts) (h : inc.Proper) (i : Nat) :
    (inc.countShared i counts).1.Nodup := by
  rw [countShared_eq]
  exact nodup_foldl_touch (hc.lt_size h i) hc.noted List.nodup_nil

/-- The met terms are all different, so a row may sort them in any way. -/
theorem Clear.collect_sorted {counts : Array Nat} (hc : inc.Clear counts) (h : inc.Proper) {i : Nat} {order : List Nat}
    (hperm : order.Perm (inc.countShared i counts).1) (hsorted : order.Pairwise (· ≤ ·)) :
    inc.collect τ f i (inc.countShared i counts).2 order = inc.row τ f i counts := by
  have hnodup : order.Nodup := hperm.nodup_iff.2 (hc.nodup_met h i)
  have hasc : Ascending order := (hsorted.and hnodup).imp fun hjk => Nat.lt_of_le_of_ne hjk.1 hjk.2
  have horder : order = Ascending.ofList (inc.countShared i counts).1.reverse := by
    refine Ascending.ext hasc (Ascending.ascending_ofList _) ?_
    intro j
    rw [Ascending.mem_ofList, List.mem_reverse, hperm.mem_iff]
  rw [row_eq_collect, horder]

/-! ## Workers side by side -/

/-- The array of each worker, and the rows handed in so far, each with the number of its term. -/
structure Crew (α : Type) where
  arrays : List (Array Nat)
  handedIn : List (Nat × List (Nat × α))

/-- One more worker joins with a new array, or a worker finds a row in its own array and hands it in. -/
inductive Crew.Step (inc : Incidence) (τ : α) (f : Measure α) : Crew α → Crew α → Prop where
  | join (k : Crew α) : Step inc τ f k ⟨k.arrays ++ [inc.scratch], k.handedIn⟩
  | work {i : Nat} (before after : List (Array Nat)) (counts : Array Nat) (handedIn : List (Nat × List (Nat × α))) :
      i < inc.termCount → Step inc τ f ⟨before ++ counts :: after, handedIn⟩
        ⟨before ++ (inc.row τ f i counts).2 :: after, handedIn ++ [(i, (inc.row τ f i counts).1)]⟩

/-- What workers may come to, whoever takes which row, and when. -/
inductive Crew.Reaches (inc : Incidence) (τ : α) (f : Measure α) : Crew α → Prop where
  | start : Reaches inc τ f ⟨[], []⟩
  | step {k k' : Crew α} : Reaches inc τ f k → Crew.Step inc τ f k k' → Reaches inc τ f k'

/-- Every row was handed in. -/
def Crew.Finished (k : Crew α) (inc : Incidence) : Prop := ∀ i < inc.termCount, ∃ row, (i, row) ∈ k.handedIn

/-- The rows in the order of their terms, each as it was handed in. -/
def Crew.collected (k : Crew α) (inc : Incidence) : List (List (Nat × α)) :=
  (List.range inc.termCount).map fun i => (k.handedIn.lookup i).getD []

/-- No array keeps a count, and every row handed in is the plain one. -/
structure Crew.Sound (inc : Incidence) (τ : α) (f : Measure α) (k : Crew α) : Prop where
  arrays : ∀ counts ∈ k.arrays, counts = inc.scratch
  handedIn : ∀ e ∈ k.handedIn, e.2 = inc.linkedRow τ f e.1

theorem Crew.Sound.step {k k' : Crew α} (hk : k.Sound inc τ f) (h : inc.Proper) (hs : Crew.Step inc τ f k k') :
    k'.Sound inc τ f := by
  cases hs with
  | join k =>
    refine ⟨?_, hk.handedIn⟩
    intro counts hmem
    rcases List.mem_append.1 hmem with hmem | hmem
    · exact hk.arrays counts hmem
    · exact List.mem_singleton.1 hmem
  | @work i before after counts handedIn hi =>
    have hcounts : counts = inc.scratch := hk.arrays counts (List.mem_append_right _ List.mem_cons_self)
    have hrow : inc.row τ f i counts = (inc.linkedRow τ f i, counts) := by
      rw [hcounts]
      exact row_eq_linkedRow h i
    rw [hrow]
    refine ⟨hk.arrays, ?_⟩
    intro e hmem
    rcases List.mem_append.1 hmem with hmem | hmem
    · exact hk.handedIn e hmem
    · rw [List.mem_singleton.1 hmem]

theorem Crew.Reaches.sound {k : Crew α} (hr : Crew.Reaches inc τ f k) (h : inc.Proper) : k.Sound inc τ f := by
  induction hr with
  | start => exact ⟨nofun, nofun⟩
  | step _ hs ih => exact ih.step h hs

/-- What is collected once every row was handed in. -/
theorem Crew.Sound.collected_eq {k : Crew α} (hk : k.Sound inc τ f) (hfinished : k.Finished inc) :
    k.collected inc = (List.range inc.termCount).map (inc.linkedRow τ f) := by
  refine List.map_congr_left ?_
  intro i hi
  obtain ⟨row, hmem⟩ := hfinished i (List.mem_range.1 hi)
  cases hlookup : k.handedIn.lookup i with
  | none =>
    have hne := List.lookup_eq_none_iff.1 hlookup (i, row) hmem
    simp at hne
  | some row' =>
    obtain ⟨before, after, heq, -⟩ := List.lookup_eq_some_iff.1 hlookup
    exact hk.handedIn (i, row') (by rw [heq]; simp)

/-- One worker alone may take rows one after the other. -/
theorem Crew.Reaches.rowsOf {is : List Nat} (his : ∀ i ∈ is, i < inc.termCount) {before after : List (Array Nat)}
    {counts : Array Nat} {handedIn : List (Nat × List (Nat × α))}
    (hr : Crew.Reaches inc τ f ⟨before ++ counts :: after, handedIn⟩) :
    Crew.Reaches inc τ f ⟨before ++ (inc.rowsOf τ f counts is).2 :: after,
      handedIn ++ is.zip (inc.rowsOf τ f counts is).1⟩ := by
  induction is generalizing counts handedIn with
  | nil =>
    rw [List.zip_nil_left, List.append_nil]
    exact hr
  | cons i is ih =>
    obtain ⟨hi, his⟩ := List.forall_mem_cons.1 his
    have hrest := ih his (hr.step (Crew.Step.work before after counts handedIn hi))
    rw [List.append_assoc, List.singleton_append] at hrest
    exact hrest

/-- Any number of workers may take any rows, each with a new array. -/
theorem Crew.Reaches.assigned {workers : List (List Nat)} (hworkers : ∀ is ∈ workers, ∀ i ∈ is, i < inc.termCount)
    {k : Crew α} (hr : Crew.Reaches inc τ f k) :
    ∃ k', Crew.Reaches inc τ f k' ∧
      k'.handedIn = k.handedIn ++ workers.flatMap fun is => is.zip (inc.rowsOf τ f inc.scratch is).1 := by
  induction workers generalizing k with
  | nil => exact ⟨k, hr, (List.append_nil _).symm⟩
  | cons is workers ih =>
    obtain ⟨his, hworkers⟩ := List.forall_mem_cons.1 hworkers
    have hone := (hr.step (Crew.Step.join k)).rowsOf his
    obtain ⟨k', hr', hall⟩ := ih hworkers hone
    rw [List.flatMap_cons, ← List.append_assoc]
    exact ⟨k', hr', hall⟩

theorem length_rowsOf (inc : Incidence) (τ : α) (f : Measure α) (scratch : Array Nat) (is : List Nat) :
    (inc.rowsOf τ f scratch is).1.length = is.length := by
  induction is generalizing scratch with
  | nil => rfl
  | cons i is ih => exact congrArg (· + 1) (ih (inc.row τ f i scratch).2)

/-- A worker hands in a row for each term that it takes. -/
theorem exists_mem_zip_rowsOf {i : Nat} {is : List Nat} (hi : i ∈ is) (scratch : Array Nat) :
    ∃ row, (i, row) ∈ is.zip (inc.rowsOf τ f scratch is).1 := by
  have hfst : (is.zip (inc.rowsOf τ f scratch is).1).map Prod.fst = is :=
    List.map_fst_zip (inc.length_rowsOf τ f scratch is).ge
  rw [← hfst, List.mem_map] at hi
  obtain ⟨e, he, rfl⟩ := hi
  exact ⟨e.2, he⟩

/-! ## All rows -/

/-- Every row is exact, whatever zeros it is counted in, and leaves them. -/
structure RowsExact (inc : Incidence) (τ : α) (f : Measure α) : Prop where
  row : ∀ i counts, inc.Clear counts →
    (inc.row τ f i counts).2 = counts ∧ inc.ExactRow τ f i (inc.row τ f i counts).1
  /-- The terms that are met may be sorted in any way, as none of them is met twice. -/
  sorted : ∀ i counts order, inc.Clear counts → order.Perm (inc.countShared i counts).1 → order.Pairwise (· ≤ ·) →
    inc.collect τ f i (inc.countShared i counts).2 order = inc.row τ f i counts
  /-- Counters of 32 bits do, if no term is in more documents than they can count. -/
  counters : (∀ i, (inc.holders i).length < 2 ^ 32) → ∀ i < inc.termCount,
    Checked.row inc τ f i inc.scratch = some (inc.row τ f i inc.scratch)

/-- The rows are the same whoever finds them. -/
structure RowsUnscheduled (inc : Incidence) (τ : α) (f : Measure α) : Prop where
  /-- Whatever rows a worker found, its array has zeros only. -/
  restored : ∀ k, Crew.Reaches inc τ f k → ∀ counts ∈ k.arrays, counts = inc.scratch
  /-- The rows that workers hand in are those counted each in a new array. -/
  collected : ∀ k, Crew.Reaches inc τ f k → k.Finished inc →
    k.collected inc = (List.range inc.termCount).map fun i => (inc.row τ f i inc.scratch).1
  /-- So are the rows that one worker finds in their order. -/
  inOrder : inc.rows τ f = (List.range inc.termCount).map fun i => (inc.row τ f i inc.scratch).1
  /-- Every assignment of the rows to workers can be carried out, each worker taking its rows in its own order. -/
  assigned : ∀ workers : List (List Nat), (∀ i, i < inc.termCount ↔ ∃ is ∈ workers, i ∈ is) →
    ∃ k, Crew.Reaches inc τ f k ∧ k.Finished inc ∧
      k.handedIn = workers.flatMap fun is => is.zip (inc.rowsOf τ f inc.scratch is).1

theorem Consistent.rowsExact (h : inc.Consistent) (τ : α) (f : Measure α) : RowsExact inc τ f where
  row := by
    intro i counts hc
    rw [hc.row_eq h.proper]
    exact ⟨rfl, h.exactRow i⟩
  sorted := fun i counts order hc => hc.collect_sorted h.proper
  counters := by
    intro hholders i hi
    refine Checked.row_eq ⟨h.proper, ?_, ?_⟩ hi
    · exact fun i _ doc hdoc => lt_size_of_mem ((h.mem_postingsOf i doc).1 hdoc)
    · intro i _
      rw [(h.perm_holders i).length_eq]
      exact hholders i

theorem Consistent.rowsUnscheduled (h : inc.Consistent) (τ : α) (f : Measure α) : RowsUnscheduled inc τ f where
  restored := fun k hr => (hr.sound h.proper).arrays
  collected := by
    intro k hr hfinished
    rw [(hr.sound h.proper).collected_eq hfinished]
    simp only [row_eq_linkedRow h.proper]
  inOrder := by
    rw [rows_eq h.proper]
    simp only [row_eq_linkedRow h.proper]
  assigned := by
    intro workers hworkers
    have hbound : ∀ is ∈ workers, ∀ i ∈ is, i < inc.termCount := fun is his i hi => (hworkers i).2 ⟨is, his, hi⟩
    have hstart : Crew.Reaches inc τ f ⟨[], []⟩ := Crew.Reaches.start
    obtain ⟨k, hr, hall⟩ := hstart.assigned hbound
    rw [List.nil_append] at hall
    refine ⟨k, hr, ?_, hall⟩
    intro i hi
    obtain ⟨is, his, hmem⟩ := (hworkers i).1 hi
    have hrow : ∃ row, (i, row) ∈ is.zip (inc.rowsOf τ f inc.scratch is).1 := exists_mem_zip_rowsOf hmem inc.scratch
    obtain ⟨row, hrow⟩ := hrow
    refine ⟨row, ?_⟩
    rw [hall]
    exact List.mem_flatMap.2 ⟨is, his, hrow⟩

/-! ## Inverted documents are consistent -/

variable {terms : Nat} {docs : List (List Nat)}

theorem mem_termsOf_ofDocuments {i doc : Nat} :
    i ∈ (ofDocuments terms docs).termsOf doc ↔ ∃ held, docs[doc]? = some held ∧ i ∈ held := by
  rw [termsOf_ofDocuments]
  cases docs[doc]? with
  | none => simp
  | some held => simp

theorem mem_postingsOf_ofDocuments (hnodup : ∀ doc ∈ docs, doc.Nodup) {i doc : Nat} (hi : i < terms) :
    doc ∈ (ofDocuments terms docs).postingsOf i ↔ i ∈ (ofDocuments terms docs).termsOf doc := by
  have hpostings : (ofDocuments terms docs).postingsOf i = (invert terms 0 docs).getD i [] := rfl
  rw [hpostings, mem_getD_invert hi hnodup, mem_termsOf_ofDocuments]
  simp only [Nat.zero_add]
  constructor
  · rintro ⟨_, held, hget, rfl, hmem⟩
    exact ⟨held, hget, hmem⟩
  · rintro ⟨held, hget, hmem⟩
    exact ⟨doc, held, hget, rfl, hmem⟩

/-- Documents without repetitions and their inversion fit together. -/
theorem consistent_ofDocuments (hnodup : ∀ doc ∈ docs, doc.Nodup) (hbound : ∀ doc ∈ docs, ∀ j ∈ doc, j < terms) :
    (ofDocuments terms docs).Consistent := by
  have hproper := proper_ofDocuments hnodup hbound
  have hcount : (ofDocuments terms docs).termCount = terms := size_invert terms 0 docs
  refine ⟨hproper.nodup, ?_, ?_⟩
  · intro i
    rcases Nat.lt_or_ge i terms with hi | hi
    · exact (ascending_getD_invert hi hnodup 0).nodup
    · rw [postingsOf_of_le (hcount.trans_le hi)]
      exact List.nodup_nil
  · intro i doc
    rcases Nat.lt_or_ge i terms with hi | hi
    · exact mem_postingsOf_ofDocuments hnodup hi
    · rw [postingsOf_of_le (hcount.trans_le hi)]
      refine iff_of_false List.not_mem_nil ?_
      intro hmem
      exact Nat.not_lt_of_le (hcount.trans_le hi) (hproper.bounded doc i hmem)

end Incidence

namespace ToleranceSpace

variable {α : Type} [Scalar α]

/-- The space of a corpus over rows that were found already. -/
def assemble (c : Corpus α) (τ : α) (rows : List (List (Nat × α))) : ToleranceSpace α where
  threshold := τ
  terms := c.vocabulary.toArray
  incidence := Incidence.ofDocuments c.vocabulary.length (numbered c)
  rows := rows.toArray
  classes := (classLists rows).toArray

variable {c : Corpus α} {τ : α} {f : Measure α} {s : ToleranceSpace α}

theorem eq_assemble (h : build c τ f = .ok s) : s = assemble c τ (s.incidence.rows τ f) := by
  rw [incidence_of_build h]
  exact eq_of_build h

theorem consistent_incidence (h : build c τ f = .ok s) : s.incidence.Consistent := by
  rw [incidence_of_build h]
  exact Incidence.consistent_ofDocuments (nodup_numbered c) (lt_of_mem_numbered c)

/-- Workers that find rows side by side and one after the other, each counting in one array of its own, find the rows that
are counted each in a new array, and the space over the rows that they hand in is the one that is built row by row. -/
theorem rows_do_not_depend_on_workers (τ : α) (f : Measure α) :
    (∀ inc : Incidence, inc.Consistent → inc.RowsExact τ f ∧ inc.RowsUnscheduled τ f) ∧
      ∀ c s, build c τ f = .ok s → s.incidence.Consistent ∧
        ∀ k, Incidence.Crew.Reaches s.incidence τ f k → k.Finished s.incidence →
          assemble c τ (k.collected s.incidence) = s := by
  refine ⟨fun inc h => ⟨h.rowsExact τ f, h.rowsUnscheduled τ f⟩, ?_⟩
  intro c s hs
  have h := consistent_incidence hs
  refine ⟨h, ?_⟩
  intro k hr hfinished
  have hrows := h.rowsUnscheduled τ f
  rw [hrows.collected k hr hfinished, ← hrows.inOrder]
  exact (eq_assemble hs).symm

/-- Two documents with two terms in common, and a third term in one of them. -/
def twoLists : Corpus Float := ⟨#[⟨0, .ofPairs [(0, 1), (1, 1), (2, 1)]⟩, ⟨1, .ofPairs [(0, 1), (1, 1)]⟩]⟩

/-- One worker finds the last row and then the first, of which it drops a pair, and another finds the row between them. -/
theorem rows_of_two_lists :
    ∃ s, build twoLists 0.75 firstShare = .ok s ∧ s.incidence.Consistent ∧
      ∃ k, Incidence.Crew.Reaches s.incidence 0.75 firstShare k ∧ k.Finished s.incidence ∧
        k.handedIn = [(2, []), (0, [(1, 1)]), (1, [])] ∧ assemble twoLists 0.75 (k.collected s.incidence) = s := by
  have hτ : Scalar.withinAbove 0 1 (0.75 : Float) = true := by decide +kernel
  obtain ⟨s, hs⟩ := exists_build twoLists hτ firstShare
  obtain ⟨hall, hbuild⟩ := rows_do_not_depend_on_workers (0.75 : Float) firstShare
  obtain ⟨hconsistent, hsame⟩ := hbuild twoLists s hs
  have hcount : s.incidence.termCount = 3 := by
    rw [termCount_incidence hs]
    decide +kernel
  have hworkers : ∀ i, i < s.incidence.termCount ↔ ∃ is ∈ [[2, 0], [1]], i ∈ is := by
    intro i
    simp [hcount]
    omega
  obtain ⟨k, hr, hfinished, hhanded⟩ := (hall s.incidence hconsistent).2.assigned [[2, 0], [1]] hworkers
  refine ⟨s, hs, hconsistent, k, hr, hfinished, ?_, hsame k hr hfinished⟩
  rw [hhanded, incidence_of_build hs]
  decide +kernel

end ToleranceSpace

end ToleranceClustering
