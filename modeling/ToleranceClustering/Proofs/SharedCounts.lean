import ToleranceClustering.Proofs.Covering

/-!
# Counting shared documents

A row is found by walking the postings of a term and counting every later term met there, in a scratch array that is
zero before and afterwards. What the count leaves is the number of documents shared with each later term
(`Clear.getD_countShared`), so a row holds the later terms that occur together with its own and are similar enough
(`Clear.row_eq`). Since every row gives the scratch array back as it was, the rows do not depend on one another
(`rows_eq`).
-/

namespace ToleranceClustering

namespace Ascending

/-- Passing over two ascending lists together counts the elements of the one that are in the other. -/
theorem sharedCount_eq_countP {xs ys : List Nat} (hx : Ascending xs) (hy : Ascending ys) :
    sharedCount xs ys = xs.countP fun a => ys.contains a := by
  induction xs generalizing ys with
  | nil => rfl
  | cons x xs ih =>
    obtain ⟨hxs, hx⟩ := List.pairwise_cons.1 hx
    induction ys with
    | nil => simp [sharedCount_nil_right]
    | cons y ys ihy =>
      obtain ⟨hys, hy'⟩ := List.pairwise_cons.1 hy
      rw [sharedCount_cons_cons]
      -- what is below the head of the other list is in none of it
      have hskip : ∀ a, y < a → ((y :: ys).contains a ↔ ys.contains a) := by
        intro a ha
        simp [Nat.ne_of_gt ha]
      rcases Nat.lt_trichotomy x y with h | h | h
      · have hout : ¬(y :: ys).contains x = true := by
          rw [List.contains_iff_mem]
          intro hmem
          rcases List.mem_cons.1 hmem with rfl | hmem
          · exact Nat.lt_irrefl x h
          · exact Nat.lt_asymm h (hys x hmem)
        rw [if_pos h, ih hx hy, List.countP_cons_of_neg hout]
      · subst h
        have hin : (x :: ys).contains x = true := by simp
        rw [if_neg (Nat.lt_irrefl x), if_neg (Nat.lt_irrefl x), ih hx hy', List.countP_cons_of_pos hin]
        exact congrArg (· + 1) (List.countP_congr fun a ha => (hskip a (hxs a ha)).symm)
      · rw [if_neg (Nat.lt_asymm h), if_pos h, ihy hy']
        refine List.countP_congr ?_
        intro a ha
        rcases List.mem_cons.1 ha with rfl | ha
        · exact (hskip a h).symm
        · exact (hskip a (Nat.lt_trans h (hxs a ha))).symm

end Ascending

namespace Incidence

variable {α : Type} [Scalar α]

/-! ## Counting in a scratch array -/

theorem getD_modify {scratch : Array Nat} {k : Nat} (hk : k < scratch.size) (g : Nat → Nat) (j : Nat) :
    (scratch.modify k g).getD j 0 = if j = k then g (scratch.getD k 0) else scratch.getD j 0 := by
  rw [Array.getD_eq_getD_getElem?, Array.getElem?_modify]
  by_cases h : j = k
  · subst h
    simp [Array.getD_eq_getD_getElem?, hk]
  · simp [Array.getD_eq_getD_getElem?, h, Ne.symm h]

/-- The terms met are those with a count. -/
def Noted (state : List Nat × Array Nat) : Prop := ∀ k, k ∈ state.1 ↔ 0 < state.2.getD k 0

theorem touch_of_le {i j : Nat} (h : j ≤ i) (state : List Nat × Array Nat) : touch i state j = state := if_pos h

theorem touch_of_lt {i j : Nat} (h : i < j) (state : List Nat × Array Nat) :
    touch i state j = (if state.2.getD j 0 = 0 then j :: state.1 else state.1, state.2.modify j (· + 1)) :=
  if_neg (Nat.not_le.2 h)

theorem size_touch (i : Nat) (state : List Nat × Array Nat) (j : Nat) :
    (touch i state j).2.size = state.2.size := by
  rcases Nat.lt_or_ge i j with h | h
  · rw [touch_of_lt h]
    exact Array.size_modify
  · rw [touch_of_le h]

theorem getD_touch {i j : Nat} {state : List Nat × Array Nat} (hj : j < state.2.size) (k : Nat) :
    (touch i state j).2.getD k 0 = state.2.getD k 0 + if i < k ∧ j = k then 1 else 0 := by
  rcases Nat.lt_or_ge i j with h | h
  · rw [touch_of_lt h, getD_modify hj]
    by_cases hkj : k = j
    · subst hkj
      rw [if_pos rfl, if_pos ⟨h, rfl⟩]
    · have hno : ¬(i < k ∧ j = k) := fun h => hkj h.2.symm
      rw [if_neg hkj, if_neg hno, Nat.add_zero]
  · have hno : ¬(i < k ∧ j = k) := by omega
    rw [touch_of_le h, if_neg hno, Nat.add_zero]

/-- A later term is noted when it is met first. -/
theorem mem_touch {i j : Nat} (h : i < j) (state : List Nat × Array Nat) (k : Nat) :
    k ∈ (touch i state j).1 ↔ (k = j ∧ state.2.getD j 0 = 0) ∨ k ∈ state.1 := by
  rw [touch_of_lt h]
  by_cases hfirst : state.2.getD j 0 = 0
  · rw [if_pos hfirst, and_iff_left hfirst]
    exact List.mem_cons
  · rw [if_neg hfirst]
    exact (or_iff_right fun h => hfirst h.2).symm

theorem Noted.touch {i j : Nat} {state : List Nat × Array Nat} (h : Noted state) (hj : j < state.2.size) :
    Noted (Incidence.touch i state j) := by
  intro k
  rcases Nat.lt_or_ge i j with hlt | hle
  · rw [mem_touch hlt, getD_touch hj, h k]
    by_cases hkj : j = k
    · subst hkj
      have hyes : i < j ∧ j = j := ⟨hlt, rfl⟩
      rw [if_pos hyes]
      omega
    · have hno : ¬(i < k ∧ j = k) := fun h => hkj h.2
      rw [if_neg hno, Nat.add_zero]
      exact or_iff_right fun h => hkj h.1.symm
  · rw [touch_of_le hle]
    exact h k

/-- Walking a list of terms adds, for each later term, how often it is in the list. -/
theorem foldl_touch {i : Nat} {js : List Nat} {state : List Nat × Array Nat} (hjs : ∀ j ∈ js, j < state.2.size) :
    (js.foldl (touch i) state).2.size = state.2.size ∧
      (∀ k, (js.foldl (touch i) state).2.getD k 0 = state.2.getD k 0 + if i < k then js.count k else 0) ∧
      (Noted state → Noted (js.foldl (touch i) state)) := by
  induction js generalizing state with
  | nil => simp
  | cons j js ih =>
    obtain ⟨hj, hjs⟩ := List.forall_mem_cons.1 hjs
    have hjs' : ∀ l ∈ js, l < (touch i state j).2.size := by rwa [size_touch]
    obtain ⟨hsize, hcount, hnoted⟩ := ih hjs'
    rw [List.foldl_cons]
    refine ⟨hsize.trans (size_touch i state j), ?_, fun h => hnoted (h.touch hj)⟩
    intro k
    rw [hcount, getD_touch hj, List.count_cons]
    by_cases hik : i < k
    · simp only [hik, true_and, if_true, beq_iff_eq]
      omega
    · simp [hik]

/-! ## Documents that terms share -/

/-- Every document holds each of its terms once, and they are terms of the incidence. -/
structure Proper (inc : Incidence) : Prop where
  nodup : ∀ doc, (inc.termsOf doc).Nodup
  bounded : ∀ doc, ∀ j ∈ inc.termsOf doc, j < inc.termCount

/-- How many documents of the term `i` hold the term `j`. -/
def shared (inc : Incidence) (i j : Nat) : Nat := (inc.postingsOf i).countP fun doc => (inc.termsOf doc).contains j

variable {inc : Incidence}

theorem shared_of_le (h : inc.Proper) {i j : Nat} (hj : inc.termCount ≤ j) : inc.shared i j = 0 := by
  refine List.countP_eq_zero.2 ?_
  intro doc _ hmem
  have := h.bounded doc j (List.contains_iff_mem.1 hmem)
  omega

/-- The terms met on the way through the postings of `i`, each as often as it is met. -/
theorem count_met (h : inc.Proper) (i j : Nat) : ((inc.postingsOf i).flatMap inc.termsOf).count j = inc.shared i j := by
  unfold shared
  induction inc.postingsOf i with
  | nil => rfl
  | cons doc docs ih =>
    have hdoc : (inc.termsOf doc).count j = if (inc.termsOf doc).contains j then 1 else 0 := by
      rw [(h.nodup doc).count]
      simp
    rw [List.flatMap_cons, List.count_append, ih, List.countP_cons, hdoc, Nat.add_comm]

theorem countShared_eq (inc : Incidence) (i : Nat) (scratch : Array Nat) :
    inc.countShared i scratch = ((inc.postingsOf i).flatMap inc.termsOf).foldl (touch i) ([], scratch) := by
  rw [List.foldl_flatMap]
  rfl

theorem size_scratch (inc : Incidence) : inc.scratch.size = inc.termCount := Array.size_replicate

theorem getD_scratch (inc : Incidence) (k : Nat) : inc.scratch.getD k 0 = 0 := by
  rw [scratch, Array.getD_eq_getD_getElem?, Array.getElem?_replicate]
  split <;> rfl

/-- An array with room for a count of every term, and nothing counted yet. -/
structure Clear (inc : Incidence) (counts : Array Nat) : Prop where
  room : inc.termCount ≤ counts.size
  zero : ∀ k, counts.getD k 0 = 0

theorem clear_scratch (inc : Incidence) : inc.Clear inc.scratch := ⟨inc.size_scratch.ge, inc.getD_scratch⟩

theorem eq_of_getD_eq {a b : Array Nat} (hsize : a.size = b.size) (h : ∀ k, a.getD k 0 = b.getD k 0) : a = b := by
  refine Array.ext hsize ?_
  intro k hk hk'
  have hget := h k
  rw [Array.getD_eq_getD_getElem?, Array.getElem?_eq_getElem hk, Array.getD_eq_getD_getElem?,
    Array.getElem?_eq_getElem hk'] at hget
  exact hget

theorem Clear.lt_size {counts : Array Nat} (hc : inc.Clear counts) (h : inc.Proper) (i : Nat) :
    ∀ j ∈ (inc.postingsOf i).flatMap inc.termsOf, j < counts.size := by
  intro j hj
  obtain ⟨doc, -, hmem⟩ := List.mem_flatMap.1 hj
  exact Nat.lt_of_lt_of_le (h.bounded doc j hmem) hc.room

theorem Clear.noted {counts : Array Nat} (hc : inc.Clear counts) : Noted ([], counts) := by
  intro k
  exact iff_of_false List.not_mem_nil (by rw [hc.zero]; exact Nat.lt_irrefl 0)

/-- After counting, the array holds for each later term the number of shared documents, and zero elsewhere. -/
theorem Clear.getD_countShared {counts : Array Nat} (hc : inc.Clear counts) (h : inc.Proper) (i : Nat) :
    (inc.countShared i counts).2.size = counts.size ∧
      (∀ k, (inc.countShared i counts).2.getD k 0 = if i < k then inc.shared i k else 0) ∧
      Noted (inc.countShared i counts) := by
  have hbound : ∀ j ∈ (inc.postingsOf i).flatMap inc.termsOf, j < (([], counts) : List Nat × Array Nat).2.size :=
    hc.lt_size h i
  obtain ⟨hsize, hcount, hnoted⟩ := foldl_touch (i := i) hbound
  rw [countShared_eq]
  refine ⟨hsize, ?_, hnoted hc.noted⟩
  intro k
  rw [hcount, hc.zero, Nat.zero_add, count_met h]

theorem getD_countShared (h : inc.Proper) (i : Nat) :
    (inc.countShared i inc.scratch).2.size = inc.termCount ∧
      (∀ k, (inc.countShared i inc.scratch).2.getD k 0 = if i < k then inc.shared i k else 0) ∧
      Noted (inc.countShared i inc.scratch) := by
  have hcounted := inc.clear_scratch.getD_countShared h i
  rwa [size_scratch] at hcounted

/-- The terms met are those that come later and share a document. -/
theorem Clear.mem_met {counts : Array Nat} (hc : inc.Clear counts) (h : inc.Proper) {i j : Nat} :
    j ∈ (inc.countShared i counts).1 ↔ i < j ∧ 0 < inc.shared i j := by
  obtain ⟨-, hcount, hnoted⟩ := hc.getD_countShared h i
  rw [hnoted j, hcount j]
  split
  · rename_i hlt
    exact (and_iff_right hlt).symm
  · rename_i hlt
    exact iff_of_false (Nat.lt_irrefl 0) fun h => hlt h.1

/-! ## Rows -/

/-- The similarity of two terms, the earlier first, from the number of documents they share, if it reaches `τ`. -/
def similar? (inc : Incidence) (τ : α) (f : Measure α) (i j count : Nat) : Option α :=
  if τ ≤ f count (inc.frequency i) (inc.frequency j) then some (f count (inc.frequency i) (inc.frequency j)) else none

/-- The similarity of two terms, if the first comes before the second, they occur together and are similar enough. -/
def link? (inc : Incidence) (τ : α) (f : Measure α) (i j : Nat) : Option α :=
  if i < j ∧ 0 < inc.shared i j then inc.similar? τ f i j (inc.shared i j) else none

/-- The later terms that `i` is linked to, found by looking at every term. -/
def linkedRow (inc : Incidence) (τ : α) (f : Measure α) (i : Nat) : List (Nat × α) :=
  (List.range inc.termCount).filterMap fun j => (inc.link? τ f i j).map (Prod.mk j)

variable {τ : α} {f : Measure α}

theorem link?_eq_some {i j : Nat} {x : α} :
    inc.link? τ f i j = some x ↔ i < j ∧ 0 < inc.shared i j ∧
      x = f (inc.shared i j) (inc.frequency i) (inc.frequency j) ∧ τ ≤ x := by
  unfold link? similar?
  constructor
  · intro h
    split at h
    · rename_i hij
      split at h
      · rename_i hτ
        obtain rfl := Option.some.inj h
        exact ⟨hij.1, hij.2, rfl, hτ⟩
      · nomatch h
    · nomatch h
  · rintro ⟨hlt, hpos, rfl, hτ⟩
    rw [if_pos ⟨hlt, hpos⟩, if_pos hτ]

/-- Collecting takes the count of every listed term out of the array, and keeps the terms that are similar enough. -/
theorem collect_spec (inc : Incidence) (τ : α) (f : Measure α) (i : Nat) {js : List Nat} (hnodup : js.Nodup)
    {counts : Array Nat} (hjs : ∀ j ∈ js, j < counts.size) :
    (inc.collect τ f i counts js).1 =
        js.filterMap (fun j => (inc.similar? τ f i j (counts.getD j 0)).map (Prod.mk j)) ∧
      (inc.collect τ f i counts js).2.size = counts.size ∧
      ∀ k, (inc.collect τ f i counts js).2.getD k 0 = if k ∈ js then 0 else counts.getD k 0 := by
  induction js generalizing counts with
  | nil => simp [collect]
  | cons j js ih =>
    obtain ⟨hj, hnodup⟩ := List.nodup_cons.1 hnodup
    obtain ⟨hlt, hjs⟩ := List.forall_mem_cons.1 hjs
    have hsize : (counts.modify j fun _ => 0).size = counts.size := Array.size_modify
    have hjs' : ∀ l ∈ js, l < (counts.modify j fun _ => 0).size := by rwa [hsize]
    obtain ⟨hrow, hsize', hcount⟩ := ih hnodup hjs'
    refine ⟨?_, ?_, ?_⟩
    · -- the counts of the terms still to come are as they were
      have hrest : js.filterMap (fun l => (inc.similar? τ f i l ((counts.modify j fun _ => 0).getD l 0)).map (Prod.mk l)) =
          js.filterMap fun l => (inc.similar? τ f i l (counts.getD l 0)).map (Prod.mk l) := by
        refine List.filterMap_congr ?_
        intro l hl
        have hne : l ≠ j := fun he => hj (he ▸ hl)
        rw [getD_modify hlt, if_neg hne]
      rw [List.filterMap_cons, ← hrest, ← hrow]
      by_cases hτ : τ ≤ f (counts.getD j 0) (inc.frequency i) (inc.frequency j)
      · rw [collect, similar?, if_pos hτ, if_pos hτ]
        rfl
      · rw [collect, similar?, if_neg hτ, if_neg hτ]
        rfl
    · exact hsize'.trans hsize
    · intro k
      show (inc.collect τ f i (counts.modify j fun _ => 0) js).2.getD k 0 = _
      rw [hcount, getD_modify hlt]
      by_cases hk : k = j
      · subst hk
        simp
      · simp [hk]

theorem row_eq_collect (i : Nat) (scratch : Array Nat) :
    inc.row τ f i scratch = inc.collect τ f i (inc.countShared i scratch).2
      (Ascending.ofList (inc.countShared i scratch).1.reverse) := rfl

/-- A row is the one found by looking at every term, and the array is as it was. -/
theorem Clear.row_eq {counts : Array Nat} (hc : inc.Clear counts) (h : inc.Proper) (i : Nat) :
    inc.row τ f i counts = (inc.linkedRow τ f i, counts) := by
  obtain ⟨hsize, hcount, -⟩ := hc.getD_countShared h i
  have hmet : ∀ j, j ∈ Ascending.ofList (inc.countShared i counts).1.reverse ↔ i < j ∧ 0 < inc.shared i j := by
    intro j
    rw [Ascending.mem_ofList, List.mem_reverse, hc.mem_met h]
  have hlt : ∀ j ∈ Ascending.ofList (inc.countShared i counts).1.reverse, j < inc.termCount := by
    intro j hj
    by_contra hge
    have := shared_of_le h (i := i) (Nat.le_of_not_lt hge)
    have := ((hmet j).1 hj).2
    omega
  have hasc := Ascending.ascending_ofList (inc.countShared i counts).1.reverse
  obtain ⟨hrow, hsize', hclear⟩ :=
    collect_spec inc τ f i hasc.nodup fun j hj => hsize ▸ Nat.lt_of_lt_of_le (hlt j hj) hc.room
  rw [row_eq_collect]
  refine Prod.ext (hrow.trans ?_) (eq_of_getD_eq (hsize'.trans hsize) ?_)
  · show _ = inc.linkedRow τ f i
    rw [linkedRow]
    have hlink : ∀ j ∈ Ascending.ofList (inc.countShared i counts).1.reverse,
        (inc.similar? τ f i j ((inc.countShared i counts).2.getD j 0)).map (Prod.mk j) =
          (inc.link? τ f i j).map (Prod.mk j) := by
      intro j hj
      rw [hcount j, if_pos ((hmet j).1 hj).1, link?, if_pos ((hmet j).1 hj)]
    rw [List.filterMap_congr hlink]
    refine Ascending.filterMap_eq_filterMap hasc (Ascending.ascending_range _) ?_ ?_
    · intro j hj
      exact List.mem_range.2 (hlt j hj)
    · intro j _ hj
      rw [link?, if_neg (mt (hmet j).2 hj)]
      rfl
  · intro k
    rw [hclear, hcount k, hc.zero]
    split
    · rfl
    · rename_i hk
      rw [hmet k] at hk
      split <;> omega

theorem row_eq_linkedRow (h : inc.Proper) (i : Nat) :
    inc.row τ f i inc.scratch = (inc.linkedRow τ f i, inc.scratch) :=
  inc.clear_scratch.row_eq h i

/-- The rows of all terms are those found by looking at every pair. -/
theorem rows_eq (h : inc.Proper) : inc.rows τ f = (List.range inc.termCount).map (inc.linkedRow τ f) := by
  have hall : ∀ is, inc.rowsOf τ f inc.scratch is = (is.map (inc.linkedRow τ f), inc.scratch) := by
    intro is
    induction is with
    | nil => rfl
    | cons i is ih => simp only [rowsOf, row_eq_linkedRow h, ih, List.map_cons]
  rw [rows, hall]

/-- The terms of a row, ascending. -/
theorem ascending_linkedRow (i : Nat) : Ascending ((inc.linkedRow τ f i).map Prod.fst) := by
  unfold linkedRow Ascending
  rw [List.pairwise_map, List.pairwise_filterMap]
  refine (Ascending.ascending_range inc.termCount).imp ?_
  rintro j k hjk _ hj _ hk
  obtain ⟨_, -, rfl⟩ := Option.map_eq_some_iff.1 hj
  obtain ⟨_, -, rfl⟩ := Option.map_eq_some_iff.1 hk
  exact hjk

/-- Linked terms are the second later than the first, and both numbered. -/
theorem lt_of_link? (h : inc.Proper) {i j : Nat} {x : α} (hx : inc.link? τ f i j = some x) : i < j ∧ j < inc.termCount := by
  obtain ⟨hlt, hpos, -⟩ := link?_eq_some.1 hx
  refine ⟨hlt, ?_⟩
  by_contra hge
  rw [shared_of_le h (Nat.le_of_not_lt hge)] at hpos
  exact Nat.lt_irrefl 0 hpos

theorem mem_linkedRow (h : inc.Proper) {i : Nat} {e : Nat × α} :
    e ∈ inc.linkedRow τ f i ↔ inc.link? τ f i e.1 = some e.2 := by
  unfold linkedRow
  rw [List.mem_filterMap]
  constructor
  · rintro ⟨j, -, hj⟩
    obtain ⟨x, hx, rfl⟩ := Option.map_eq_some_iff.1 hj
    exact hx
  · intro hx
    exact ⟨e.1, List.mem_range.2 (lt_of_link? h hx).2, by rw [hx]; rfl⟩

theorem lt_of_mem_linkedRow (h : inc.Proper) {i : Nat} {e : Nat × α} (he : e ∈ inc.linkedRow τ f i) :
    i < e.1 ∧ e.1 < inc.termCount :=
  lt_of_link? h ((mem_linkedRow h).1 he)

/-- A row has, for each term, its link. -/
theorem lookup_linkedRow (h : inc.Proper) (i j : Nat) : (inc.linkedRow τ f i).lookup j = inc.link? τ f i j := by
  cases hl : (inc.linkedRow τ f i).lookup j with
  | none =>
    cases hj : inc.link? τ f i j with
    | none => rfl
    | some x =>
      have := List.lookup_eq_none_iff.1 hl (j, x) ((mem_linkedRow h).2 hj)
      simp at this
  | some x =>
    obtain ⟨before, after, he, -⟩ := List.lookup_eq_some_iff.1 hl
    have hmem : (j, x) ∈ inc.linkedRow τ f i := by rw [he]; simp
    exact ((mem_linkedRow h).1 hmem).symm

end Incidence

end ToleranceClustering
