import ToleranceClustering.Agglomeration
import ToleranceClustering.Proofs.AscendingSets

/-!
# Renewing the table of overlaps

After a merge the table of overlaps loses a row and a column and gets one row and one column anew. What is left is the
table of all overlaps of the candidates that are left (`remove_ofCandidates`, `refresh_ofCandidates`), and the best pair
of such a table names two candidates in their order and their overlap (`mem_pairs_ofCandidates`).
-/

namespace ToleranceClustering

namespace OverlapTable

variable {α : Type} [Scalar α]

/-! ## Cells -/

/-- What the table holds for two candidates at places `i` and `j`: their overlap, and zero on the diagonal. -/
def cell (i j : Nat) (a b : Candidate α) : α := if i = j then 0 else a.approximation.overlap b.approximation

/-- The row of the candidate `a` at place `i`. -/
def rowOf (cs : List (Candidate α)) (i : Nat) (a : Candidate α) : List α := cs.zipIdx.map fun (b, j) => cell i j a b

theorem length_ofCandidates (cs : List (Candidate α)) : (ofCandidates cs).length = cs.length := by
  simp [ofCandidates]

theorem length_rowOf (cs : List (Candidate α)) (i : Nat) (a : Candidate α) : (rowOf cs i a).length = cs.length := by
  simp [rowOf]

/-- Since the overlap is symmetric, the order in which the two sides of the diagonal are computed does not show. -/
theorem getElem?_ofCandidates (cs : List (Candidate α)) (i : Nat) :
    (ofCandidates cs)[i]? = cs[i]?.map (rowOf cs i) := by
  unfold ofCandidates
  rw [List.getElem?_map, List.getElem?_zipIdx, Option.map_map]
  refine congrArg (fun f => cs[i]?.map f) (funext fun a => List.map_congr_left ?_)
  rintro ⟨b, j⟩ -
  simp only [Nat.zero_add, cell]
  rcases Nat.lt_trichotomy i j with h | h | h
  · rw [if_pos h, if_neg (Nat.ne_of_lt h)]
  · subst h
    simp only [Nat.lt_irrefl, if_false, if_true]
  · rw [if_neg (Nat.lt_asymm h), if_pos h, if_neg (Nat.ne_of_gt h), Approximation.overlap_comm]

theorem getElem?_rowOf (cs : List (Candidate α)) (i : Nat) (a : Candidate α) (j : Nat) :
    (rowOf cs i a)[j]? = cs[j]?.map (cell i j a) := by
  unfold rowOf
  rw [List.getElem?_map, List.getElem?_zipIdx, Option.map_map]
  simp only [Nat.zero_add]
  rfl

/-- Every row of the table is the row of the candidate at its place. -/
theorem exists_of_mem_ofCandidates {cs : List (Candidate α)} {row : List α} (h : row ∈ ofCandidates cs) :
    ∃ i a, cs[i]? = some a ∧ row = rowOf cs i a := by
  obtain ⟨i, hi⟩ := List.mem_iff_getElem?.1 h
  rw [getElem?_ofCandidates] at hi
  obtain ⟨a, ha, hr⟩ := Option.map_eq_some_iff.1 hi
  exact ⟨i, a, ha, hr.symm⟩

/-! ## Removal and renewal -/

/-- Where the elements of a list come from after the one at `j` was removed. -/
def skip (j i : Nat) : Nat := if i < j then i else i + 1

theorem getElem?_eraseIdx_eq {β : Type} (xs : List β) (j i : Nat) : (xs.eraseIdx j)[i]? = xs[skip j i]? := by
  rw [List.getElem?_eraseIdx]
  unfold skip
  split <;> rfl

theorem skip_eq_iff {j i k : Nat} : skip j i = skip j k ↔ i = k := by
  unfold skip
  split <;> split <;> omega

/-- Removing the row and the column of a candidate leaves the table of the others. -/
theorem remove_ofCandidates (cs : List (Candidate α)) (j : Nat) :
    (ofCandidates cs).remove j = ofCandidates (cs.eraseIdx j) := by
  apply List.ext_getElem?
  intro i
  unfold remove
  rw [List.getElem?_map, getElem?_eraseIdx_eq, getElem?_ofCandidates, getElem?_ofCandidates, getElem?_eraseIdx_eq,
    Option.map_map]
  refine congrArg (fun f => cs[skip j i]?.map f) (funext fun a => ?_)
  apply List.ext_getElem?
  intro l
  rw [Function.comp_apply, getElem?_eraseIdx_eq, getElem?_rowOf, getElem?_rowOf, getElem?_eraseIdx_eq]
  refine congrArg (fun f => cs[skip j l]?.map f) (funext fun b => ?_)
  simp only [cell, skip_eq_iff]

/-- Computing the row and the column of a replaced candidate anew gives the table of the candidates as they are now. -/
theorem refresh_ofCandidates (cs : List (Candidate α)) {i : Nat} (hi : i < cs.length) (m : Candidate α) :
    (ofCandidates cs).refresh (cs.set i m) i = ofCandidates (cs.set i m) := by
  have hm : (cs.set i m)[i]? = some m := by rw [List.getElem?_set_self hi]
  have hk : ∀ {k}, k ≠ i → (cs.set i m)[k]? = cs[k]? := fun h => List.getElem?_set_ne (Ne.symm h)
  apply List.ext_getElem?
  intro k
  unfold refresh
  rw [hm]
  simp only [List.getElem?_map, List.getElem?_zipIdx, Option.map_map, getElem?_ofCandidates, Nat.zero_add]
  by_cases h : k = i
  · -- the row itself
    subst h
    rw [hm, List.getElem?_eq_getElem hi, Option.map_some, Option.map_some]
    refine congrArg some (List.ext_getElem? ?_)
    intro j
    simp only [Function.comp_apply, if_true, List.getElem?_map, List.getElem?_zipIdx, Nat.zero_add, getElem?_rowOf,
      List.zip, List.getElem?_zipWith]
    by_cases hj : j = k
    · subst hj
      simp [hm, List.getElem?_eq_getElem hi, cell]
    · rw [hk hj]
      cases cs[j]? with
      | none => rfl
      | some b => simp [hj, Ne.symm hj, cell]
  · -- another row, of which only the cell in column `i` changes
    rw [hk h]
    cases hc : cs[k]? with
    | none => rfl
    | some b =>
      rw [Option.map_some, Option.map_some]
      refine congrArg some (List.ext_getElem? ?_)
      intro j
      simp only [Function.comp_apply, h, if_false, hk h, hc, Option.map_some, getElem?_rowOf]
      by_cases hj : j = i
      · subst hj
        have hlt : j < (rowOf cs k b).length := by rw [length_rowOf]; exact hi
        rw [List.getElem?_set_self hlt, hm, Option.map_some, cell, if_neg h, Approximation.overlap_comm]
      · rw [List.getElem?_set_ne (Ne.symm hj), hk hj, getElem?_rowOf]

/-! ## The pairs above the diagonal -/

omit [Scalar α] in
/-- The pairs of a table are its cells above the diagonal. -/
theorem mem_pairs {t : OverlapTable α} {p : OverlapPair α} :
    p ∈ t.pairs ↔ p.first < p.second ∧ ∃ row, t[p.first]? = some row ∧ row[p.second]? = some p.overlap := by
  unfold pairs
  simp only [List.mem_flatMap, List.mem_map, Prod.exists]
  constructor
  · rintro ⟨row, i, hrow, o, j, ho, rfl⟩
    obtain ⟨n, hn⟩ := List.mem_iff_getElem?.1 ho
    rw [List.getElem?_drop, List.getElem?_zipIdx] at hn
    obtain ⟨o', ho', he⟩ := Option.map_eq_some_iff.1 hn
    obtain ⟨rfl, rfl⟩ := Prod.mk.inj he
    have hr : t[i]? = some row := List.mk_mem_zipIdx_iff_getElem?.1 hrow
    refine ⟨by simp only [Nat.zero_add]; omega, row, hr, ?_⟩
    simpa only [Nat.zero_add] using ho'
  · rintro ⟨hlt, row, hr, ho⟩
    refine ⟨row, p.first, List.mk_mem_zipIdx_iff_getElem?.2 hr, p.overlap, p.second, ?_, rfl⟩
    refine List.mem_iff_getElem?.2 ⟨p.second - (p.first + 1), ?_⟩
    have e : p.first + 1 + (p.second - (p.first + 1)) = p.second := by omega
    rw [List.getElem?_drop, List.getElem?_zipIdx, e, ho, Option.map_some, Nat.zero_add]

/-- The pairs of the table of some candidates: two of them in their order, with their overlap. -/
theorem mem_pairs_ofCandidates {cs : List (Candidate α)} {p : OverlapPair α} :
    p ∈ (ofCandidates cs).pairs ↔ p.first < p.second ∧ ∃ a b, cs[p.first]? = some a ∧ cs[p.second]? = some b ∧
      p.overlap = a.approximation.overlap b.approximation := by
  rw [mem_pairs]
  refine and_congr_right ?_
  intro hlt
  simp only [getElem?_ofCandidates, Option.map_eq_some_iff]
  constructor
  · rintro ⟨row, ⟨a, ha, rfl⟩, ho⟩
    rw [getElem?_rowOf] at ho
    obtain ⟨b, hb, hc⟩ := Option.map_eq_some_iff.1 ho
    rw [cell, if_neg (Nat.ne_of_lt hlt)] at hc
    exact ⟨a, b, ha, hb, hc.symm⟩
  · rintro ⟨a, b, ha, hb, hc⟩
    refine ⟨_, ⟨a, ha, rfl⟩, ?_⟩
    rw [getElem?_rowOf, hb, Option.map_some, cell, if_neg (Nat.ne_of_lt hlt), hc]

/-- What the search for the best pair ends with: a pair it started from or met. -/
theorem foldl_better_eq_some {θ : α} (ps : List (OverlapPair α)) {best : Option (OverlapPair α)} {p : OverlapPair α}
    (h : ps.foldl (better θ) best = some p) : best = some p ∨ (p ∈ ps ∧ ¬p.overlap < θ) := by
  induction ps generalizing best with
  | nil => exact Or.inl h
  | cons q qs ih =>
    rw [List.foldl_cons] at h
    rcases ih h with hb | ⟨hp, hθ⟩
    · unfold better at hb
      by_cases hq : q.overlap < θ
      · rw [if_pos hq] at hb
        exact Or.inl hb
      · rw [if_neg hq] at hb
        cases best with
        | none =>
          obtain rfl := Option.some.inj hb
          exact Or.inr ⟨List.mem_cons_self, hq⟩
        | some b =>
          simp only at hb
          split at hb
          · obtain rfl := Option.some.inj hb
            exact Or.inr ⟨List.mem_cons_self, hq⟩
          · exact Or.inl hb
    · exact Or.inr ⟨List.mem_cons_of_mem q hp, hθ⟩

/-- The search finds nothing exactly when it starts from nothing and every pair is below the threshold. -/
theorem foldl_better_eq_none {θ : α} (ps : List (OverlapPair α)) {best : Option (OverlapPair α)} :
    ps.foldl (better θ) best = none ↔ best = none ∧ ∀ p ∈ ps, p.overlap < θ := by
  induction ps generalizing best with
  | nil => simp
  | cons q qs ih =>
    rw [List.foldl_cons, ih, List.forall_mem_cons]
    unfold better
    by_cases hq : q.overlap < θ
    · simp [hq]
    · cases best with
      | none => simp [hq]
      | some b => by_cases hb : b.overlap < q.overlap <;> simp [hq, hb]

theorem bestPair?_mem {t : OverlapTable α} {θ : α} {p : OverlapPair α} (h : t.bestPair? θ = some p) :
    p ∈ t.pairs ∧ ¬p.overlap < θ := by
  rcases foldl_better_eq_some t.pairs h with h0 | h1
  · nomatch h0
  · exact h1

theorem bestPair?_eq_none {t : OverlapTable α} {θ : α} : t.bestPair? θ = none ↔ ∀ p ∈ t.pairs, p.overlap < θ := by
  unfold bestPair?
  rw [foldl_better_eq_none]
  simp

end OverlapTable

end ToleranceClustering
