import ToleranceClustering.Proofs.Checked.Approximation
import ToleranceClustering.Proofs.MergeLoop

/-!
# A checked agglomeration

The table of overlaps is written entry by entry, on both sides of the diagonal; a merge takes a row, and a place of every
other row, out of it, takes a candidate out of the list, and writes one row and one column anew. While a table is being
written, it agrees with the finished one outside the entries to come (`Checked.Pending`), so that every row, column and
candidate that is looked up is there, also after removals, and the loop ends by itself (`Checked.merge_eq`).
-/

namespace ToleranceClustering

namespace Checked

variable {α : Type} [Scalar α]

/-! ## Tables -/

/-- The overlap of two document sets, if the common documents can be taken off the sum of the sizes. -/
def overlap (a b : Approximation α) : Option α :=
  if Ascending.sharedCount a.positions b.positions ≤ a.size + b.size then some (a.overlap b) else none

/-- The table with `o` at row `i` and column `j`, if they are there. -/
def write (t : OverlapTable α) (i j : Nat) (o : α) : Option (OverlapTable α) := do
  let row ← t[i]?
  if j < row.length then some (t.set i (row.set j o)) else none

/-- Writes the overlap of the candidates at two places on both sides of the diagonal. -/
def writePair (cs : List (Candidate α)) (t : OverlapTable α) (p : Nat × Nat) : Option (OverlapTable α) := do
  let a ← cs[p.1]?
  let b ← cs[p.2]?
  let o ← overlap a.approximation b.approximation
  let half ← write t p.1 p.2 o
  write half p.2 p.1 o

/-- The pairs of places below `n`, the earlier place first. -/
def placePairs (n : Nat) : List (Nat × Nat) :=
  (List.range n).flatMap fun i => ((List.range n).filter fun j => decide (i < j)).map fun j => (i, j)

/-- The pairs of a place with the others below `n`. -/
def pairsAt (n i : Nat) : List (Nat × Nat) := ((List.range n).filter fun j => j != i).map fun j => (i, j)

/-- The overlaps of all pairs, written into a table of zeros. -/
def ofCandidates (cs : List (Candidate α)) : Option (OverlapTable α) :=
  (placePairs cs.length).foldlM (writePair cs) (List.replicate cs.length (List.replicate cs.length 0))

/-- The table without the row and the column at `j`, if every row has that column. -/
def remove (t : OverlapTable α) (j : Nat) : Option (OverlapTable α) :=
  if j < t.length then
    (t.eraseIdx j).mapM fun row => if j < row.length then some (row.eraseIdx j) else none
  else none

/-- The table with the row and the column at `i` written anew. -/
def refresh (t : OverlapTable α) (cs : List (Candidate α)) (i : Nat) : Option (OverlapTable α) :=
  (pairsAt cs.length i).foldlM (writePair cs) t

/-! ## Merging -/

/-- The candidates after the pair at `p` was merged, and the record of the merge. The later candidate is taken out first. -/
def mergePair (s : ToleranceSpace α) (c : Corpus α) (μ : α) (cs : List (Candidate α)) (p : OverlapPair α) :
    Option (List (Candidate α) × MergeStep α) := do
  let absorbed ← cs[p.second]?
  let kept ← (cs.eraseIdx p.second)[p.first]?
  let approximation ← approximate s c (kept.approximation.terms ++ absorbed.approximation.terms) μ
  let merged : Candidate α := ⟨kept.id, Ascending.ofList (kept.seeds ++ absorbed.seeds), approximation⟩
  return ((cs.eraseIdx p.second).set p.first merged, ⟨kept.id, absorbed.id, p.overlap, merged.size⟩)

/-- Merges for `fuel` steps at most; a pair that is left after them is a failure to end. -/
def mergeFrom (s : ToleranceSpace α) (c : Corpus α) (rule : MergeRule α) :
    Nat → OverlapTable α → List (Candidate α) → Option (List (Candidate α) × List (MergeStep α))
  | 0, table, cs => if (table.bestPair? rule.threshold).isNone then some (cs, []) else none
  | fuel + 1, table, cs =>
    match table.bestPair? rule.threshold with
    | none => some (cs, [])
    | some p => do
      let merged ← mergePair s c rule.minMembership cs p
      let removed ← remove table p.second
      let renewed ← refresh removed merged.1 p.first
      let rest ← mergeFrom s c rule fuel renewed merged.1
      return (rest.1, merged.2 :: rest.2)

/-- Merges until no pair overlaps by at least the threshold. -/
def merge (s : ToleranceSpace α) (c : Corpus α) (rule : MergeRule α) (cs : List (Candidate α)) :
    Option (List (Candidate α) × List (MergeStep α)) := do
  let table ← ofCandidates cs
  mergeFrom s c rule cs.length table cs

/-! ## Tables are written -/

/-- What a table holds at row `i` and column `j`. -/
def cellAt? (t : OverlapTable α) (i j : Nat) : Option α := t[i]?.bind fun row => row[j]?

/-- A table with `n` rows and `n` columns. -/
structure Square (t : OverlapTable α) (n : Nat) : Prop where
  rows : t.length = n
  columns : ∀ row ∈ t, row.length = n

/-- The table of the candidates, but for the pairs still to be written. -/
structure Pending (cs : List (Candidate α)) (ps : List (Nat × Nat)) (t : OverlapTable α) : Prop where
  square : Square t cs.length
  settled : ∀ i < cs.length, ∀ j < cs.length, (i, j) ∉ ps → (j, i) ∉ ps →
    cellAt? t i j = cellAt? (OverlapTable.ofCandidates cs) i j

omit [Scalar α] in
/-- Tables with the same entries are equal. -/
theorem Square.ext {t u : OverlapTable α} {n : Nat} (ht : Square t n) (hu : Square u n)
    (h : ∀ i < n, ∀ j < n, cellAt? t i j = cellAt? u i j) : t = u := by
  refine List.ext_getElem (ht.rows.trans hu.rows.symm) ?_
  intro i hi hi'
  have hrow := ht.columns _ (List.getElem_mem hi)
  have hrow' := hu.columns _ (List.getElem_mem hi')
  refine List.ext_getElem (hrow.trans hrow'.symm) ?_
  intro j hj hj'
  have hij := h i (ht.rows ▸ hi) j (hrow ▸ hj)
  rw [cellAt?, cellAt?, List.getElem?_eq_getElem hi, List.getElem?_eq_getElem hi'] at hij
  exact Option.some.inj ((List.getElem?_eq_getElem hj).symm.trans (hij.trans (List.getElem?_eq_getElem hj')))

theorem square_ofCandidates (cs : List (Candidate α)) : Square (OverlapTable.ofCandidates cs) cs.length where
  rows := (MergeState.exact_start cs).rows
  columns := (MergeState.exact_start cs).columns

theorem cellAt?_ofCandidates {cs : List (Candidate α)} {i j : Nat} {a b : Candidate α} (ha : cs[i]? = some a)
    (hb : cs[j]? = some b) : cellAt? (OverlapTable.ofCandidates cs) i j = some (OverlapTable.cell i j a b) := by
  rw [cellAt?, OverlapTable.getElem?_ofCandidates, ha, Option.map_some, Option.bind_some, OverlapTable.getElem?_rowOf, hb,
    Option.map_some]

/-- A table with nothing left to write is finished. -/
theorem Pending.eq_ofCandidates {cs : List (Candidate α)} {t : OverlapTable α} (h : Pending cs [] t) :
    t = OverlapTable.ofCandidates cs :=
  h.square.ext (square_ofCandidates cs) fun i hi j hj => h.settled i hi j hj List.not_mem_nil List.not_mem_nil

omit [Scalar α] in
/-- An entry in range is written, and nothing else. -/
theorem exists_write {t : OverlapTable α} {n i j : Nat} (h : Square t n) (hi : i < n) (hj : j < n) (o : α) :
    ∃ t', write t i j o = some t' ∧ Square t' n ∧
      ∀ k l, cellAt? t' k l = if k = i ∧ l = j then some o else cellAt? t k l := by
  have hit : i < t.length := h.rows.symm ▸ hi
  have hrow : t[i].length = n := h.columns _ (List.getElem_mem hit)
  have hjt : j < t[i].length := hrow.symm ▸ hj
  refine ⟨t.set i (t[i].set j o), ?_, ⟨?_, ?_⟩, ?_⟩
  · rw [write, bind_of_eq (List.getElem?_eq_getElem hit), if_pos hjt]
  · rw [List.length_set, h.rows]
  · intro row hmem
    rcases List.mem_or_eq_of_mem_set hmem with hold | rfl
    · exact h.columns row hold
    · rw [List.length_set, hrow]
  · intro k l
    by_cases hk : k = i
    · subst hk
      rw [cellAt?, cellAt?, List.getElem?_set_self hit, List.getElem?_eq_getElem hit, Option.bind_some, Option.bind_some]
      by_cases hl : l = j
      · subst hl
        rw [List.getElem?_set_self hjt, if_pos ⟨rfl, rfl⟩]
      · rw [List.getElem?_set_ne (Ne.symm hl), if_neg fun he => hl he.2]
    · rw [cellAt?, cellAt?, List.getElem?_set_ne (Ne.symm hk), if_neg fun he => hk he.1]

/-- The documents in both sets are no more than those of either. -/
theorem overlap_eq (a b : Approximation α) : overlap a b = some (a.overlap b) := by
  have hle := Ascending.sharedCount_le_left a.positions b.positions
  rw [Approximation.length_positions] at hle
  exact if_pos (Nat.le_trans hle (Nat.le_add_right _ _))

/-- Writing a pair takes it off the pairs to come. -/
theorem Pending.writePair {cs : List (Candidate α)} {p : Nat × Nat} {ps : List (Nat × Nat)} {t : OverlapTable α}
    (h : Pending cs (p :: ps) t) (hne : p.1 ≠ p.2) (hfirst : p.1 < cs.length) (hsecond : p.2 < cs.length) :
    ∃ t', Checked.writePair cs t p = some t' ∧ Pending cs ps t' := by
  obtain ⟨i, j⟩ := p
  simp only at hne hfirst hsecond
  have ha := List.getElem?_eq_getElem hfirst
  have hb := List.getElem?_eq_getElem hsecond
  obtain ⟨half, hwrite, hhalf, hentry⟩ := exists_write h.square hfirst hsecond
    (cs[i].approximation.overlap cs[j].approximation)
  obtain ⟨full, hwrite', hfull, hentry'⟩ := exists_write hhalf hsecond hfirst
    (cs[i].approximation.overlap cs[j].approximation)
  refine ⟨full, ?_, hfull, ?_⟩
  · simp only [Checked.writePair, ha, hb, overlap_eq, hwrite, Option.bind_eq_bind, Option.bind_some]
    exact hwrite'
  · intro k hk l hl hkl hlk
    -- The second write decides the entry below the diagonal, the first the one above it.
    rw [hentry', hentry]
    by_cases hji : k = j ∧ l = i
    · obtain ⟨rfl, rfl⟩ := hji
      rw [if_pos ⟨rfl, rfl⟩, cellAt?_ofCandidates hb ha, OverlapTable.cell, if_neg (Ne.symm hne),
        Approximation.overlap_comm]
    · rw [if_neg hji]
      by_cases hij : k = i ∧ l = j
      · obtain ⟨rfl, rfl⟩ := hij
        rw [if_pos ⟨rfl, rfl⟩, cellAt?_ofCandidates ha hb, OverlapTable.cell, if_neg hne]
      · rw [if_neg hij]
        refine h.settled k hk l hl ?_ ?_
        · rw [List.mem_cons, Prod.mk.injEq]
          exact fun hmem => hmem.elim hij hkl
        · rw [List.mem_cons, Prod.mk.injEq]
          exact fun hmem => hmem.elim (fun he => hji ⟨he.2, he.1⟩) hlk

/-- Writing all the pairs to come finishes the table. -/
theorem Pending.finish {cs : List (Candidate α)} {ps : List (Nat × Nat)} {t : OverlapTable α} (h : Pending cs ps t)
    (hps : ∀ p ∈ ps, p.1 ≠ p.2 ∧ p.1 < cs.length ∧ p.2 < cs.length) :
    ps.foldlM (Checked.writePair cs) t = some (OverlapTable.ofCandidates cs) := by
  induction ps generalizing t with
  | nil => exact congrArg some h.eq_ofCandidates
  | cons p ps ih =>
    obtain ⟨⟨hne, hfirst, hsecond⟩, hrest⟩ := List.forall_mem_cons.1 hps
    obtain ⟨t', hwrite, hpending⟩ := h.writePair hne hfirst hsecond
    rw [List.foldlM_cons, hwrite]
    exact ih hpending hrest

theorem mem_placePairs {n i j : Nat} : (i, j) ∈ placePairs n ↔ i < j ∧ j < n := by
  simp only [placePairs, List.mem_flatMap, List.mem_map, List.mem_filter, List.mem_range, decide_eq_true_eq,
    Prod.mk.injEq]
  constructor
  · rintro ⟨i', -, j', ⟨hj, hij⟩, rfl, rfl⟩
    exact ⟨hij, hj⟩
  · rintro ⟨hij, hj⟩
    exact ⟨i, Nat.lt_trans hij hj, j, ⟨hj, hij⟩, rfl, rfl⟩

theorem mem_pairsAt {n i k l : Nat} : (k, l) ∈ pairsAt n i ↔ k = i ∧ l < n ∧ l ≠ i := by
  simp only [pairsAt, List.mem_map, List.mem_filter, List.mem_range, bne_iff_ne, Prod.mk.injEq]
  constructor
  · rintro ⟨j, ⟨hj, hne⟩, rfl, rfl⟩
    exact ⟨rfl, hj, hne⟩
  · rintro ⟨rfl, hl, hne⟩
    exact ⟨l, ⟨hl, hne⟩, rfl, rfl⟩

/-- Outside the pairs of places, on the diagonal, a table of zeros is finished. -/
theorem pending_zeros (cs : List (Candidate α)) :
    Pending cs (placePairs cs.length) (List.replicate cs.length (List.replicate cs.length 0)) := by
  have hsquare : Square (List.replicate cs.length (List.replicate cs.length (0 : α))) cs.length := by
    refine ⟨List.length_replicate, ?_⟩
    intro row hrow
    rw [List.eq_of_mem_replicate hrow, List.length_replicate]
  refine ⟨hsquare, ?_⟩
  intro i hi j hj hij hji
  rw [mem_placePairs] at hij hji
  obtain rfl : i = j := by omega
  have hget := List.getElem?_eq_getElem hi
  rw [cellAt?_ofCandidates hget hget, OverlapTable.cell, if_pos rfl, cellAt?, List.getElem?_replicate, if_pos hi,
    Option.bind_some, List.getElem?_replicate, if_pos hi]

theorem ofCandidates_eq (cs : List (Candidate α)) : ofCandidates cs = some (OverlapTable.ofCandidates cs) := by
  refine (pending_zeros cs).finish ?_
  rintro ⟨i, j⟩ hp
  obtain ⟨hij, hj⟩ := mem_placePairs.1 hp
  exact ⟨Nat.ne_of_lt hij, Nat.lt_trans hij hj, hj⟩

theorem remove_eq {cs : List (Candidate α)} {j : Nat} (hj : j < cs.length) :
    remove (OverlapTable.ofCandidates cs) j = some (OverlapTable.ofCandidates (cs.eraseIdx j)) := by
  have hrows : j < (OverlapTable.ofCandidates cs).length := (square_ofCandidates cs).rows.symm ▸ hj
  rw [remove, if_pos hrows, ← OverlapTable.remove_ofCandidates, OverlapTable.remove]
  refine mapM_eq_some ?_
  intro row hrow
  have hlength := (square_ofCandidates cs).columns row (List.mem_of_mem_eraseIdx hrow)
  exact if_pos (hlength.symm ▸ hj)

/-- Replacing a candidate leaves the overlaps of the others as they are. -/
theorem pending_set {cs : List (Candidate α)} {i : Nat} (m : Candidate α) :
    Pending (cs.set i m) (pairsAt (cs.set i m).length i) (OverlapTable.ofCandidates cs) := by
  have hlength : (cs.set i m).length = cs.length := List.length_set
  refine ⟨hlength.symm ▸ square_ofCandidates cs, ?_⟩
  intro k hk l hl hkl hlk
  rw [mem_pairsAt] at hkl hlk
  have hk' := List.getElem?_eq_getElem (hlength ▸ hk)
  have hl' := List.getElem?_eq_getElem (hlength ▸ hl)
  rw [cellAt?_ofCandidates hk' hl', cellAt?_ofCandidates (List.getElem?_eq_getElem hk) (List.getElem?_eq_getElem hl)]
  by_cases hki : k = i
  · obtain rfl : l = k := by
      by_contra hne
      exact hkl ⟨hki, hl, fun hli => hne (hli.trans hki.symm)⟩
    rw [OverlapTable.cell, OverlapTable.cell, if_pos rfl, if_pos rfl]
  · have hli : l ≠ i := fun he => hlk ⟨he, hk, hki⟩
    rw [List.getElem_set_ne (Ne.symm hki), List.getElem_set_ne (Ne.symm hli)]

theorem refresh_eq {cs : List (Candidate α)} {i : Nat} (hi : i < cs.length) (m : Candidate α) :
    refresh (OverlapTable.ofCandidates cs) (cs.set i m) i = some (OverlapTable.ofCandidates (cs.set i m)) := by
  refine (pending_set m).finish ?_
  rintro ⟨k, l⟩ hp
  obtain ⟨rfl, hl, hne⟩ := mem_pairsAt.1 hp
  exact ⟨Ne.symm hne, List.length_set.symm ▸ hi, hl⟩

/-! ## Candidates are merged -/

variable {c : Corpus α} {s : ToleranceSpace α} {τ : α} {f : Measure α} {rule : MergeRule α}

/-- Taking the later candidate out first leaves the earlier one at its place. -/
theorem mergePair_eq (h : ToleranceSpace.build c τ f = .ok s) (μ : α) (cs : List (Candidate α)) {p : OverlapPair α}
    (hlt : p.first < p.second) : mergePair s c μ cs p = Agglomeration.mergePair s c μ cs p := by
  have hfirst : (cs.eraseIdx p.second)[p.first]? = cs[p.first]? := List.getElem?_eraseIdx_of_lt hlt
  rw [mergePair, Agglomeration.mergePair, hfirst]
  cases hsecond : cs[p.second]? with
  | none =>
    cases cs[p.first]? <;> rfl
  | some absorbed =>
    cases cs[p.first]? with
    | none => rfl
    | some kept =>
      simp only [Option.bind_eq_bind, Option.bind_some, approximate_eq h]
      rfl

/-- The loop finds every row, column and candidate, and ends before its steps do. -/
theorem mergeFrom_eq (h : ToleranceSpace.build c τ f = .ok s) {fuel : Nat} {cs : List (Candidate α)}
    (hfuel : cs.length ≤ fuel) :
    mergeFrom s c rule fuel (OverlapTable.ofCandidates cs) cs =
      some (Agglomeration.mergeFrom s c rule fuel (OverlapTable.ofCandidates cs) cs) := by
  -- Every merge leaves one candidate less, and the table stays that of the candidates that are left.
  induction fuel generalizing cs with
  | zero =>
    obtain rfl := List.eq_nil_of_length_eq_zero (Nat.le_zero.1 hfuel)
    rfl
  | succ fuel ih =>
    rw [mergeFrom, Agglomeration.mergeFrom]
    cases hp : (OverlapTable.ofCandidates cs).bestPair? rule.threshold with
    | none => rfl
    | some p =>
      obtain ⟨hlt, hlen, -, a, b, ha, hb, -⟩ := MergeState.bestPair?_start hp
      have hmerge := MergeState.mergePair_of_getElem? s c rule ha hb
      have herase : (cs.eraseIdx p.second).length + 1 = cs.length := by
        rw [List.length_eraseIdx_of_lt hlen]
        omega
      have hfirst : p.first < (cs.eraseIdx p.second).length := by omega
      have hlater : ((cs.eraseIdx p.second).set p.first
          (Agglomeration.absorb s c rule.minMembership a b)).length ≤ fuel := by
        rw [List.length_set]
        omega
      simp only [mergePair_eq h rule.minMembership cs hlt, hmerge, remove_eq hlen, refresh_eq hfirst, ih hlater,
        MergeState.renewed_table s c rule hlt hlen hmerge, Option.bind_eq_bind, Option.bind_some]
      rfl

/-- Merging misses nothing and comes to an end. -/
theorem merge_eq (h : ToleranceSpace.build c τ f = .ok s) (rule : MergeRule α) (cs : List (Candidate α)) :
    merge s c rule cs = some (Agglomeration.merge s c rule cs) := by
  rw [merge, bind_of_eq (ofCandidates_eq cs), mergeFrom_eq h (Nat.le_refl _)]
  rfl

end Checked

end ToleranceClustering
