import ToleranceClustering.Proofs.OverlapTable

/-!
# The merge loop, turn by turn

The loop goes through states: a table of overlaps and the candidates that are left. Every state it reaches holds the
exact table of its candidates (`Reaches.eq_start`), so a turn is a matter of the candidates alone (`next?_start_some`),
and the loop that keeps its table returns what the loop that computes all overlaps before every step returns
(`mergeUnlessCancelled_eq_mergeByRescan`).
-/

namespace ToleranceClustering

/-- Where the merge loop stands: its table of overlaps, and the candidates that are left. -/
structure MergeState (α : Type) where
  table : OverlapTable α
  candidates : List (Candidate α)

namespace MergeState

variable {α : Type} [Scalar α]

/-- The state before the first turn. -/
def start (cs : List (Candidate α)) : MergeState α := ⟨OverlapTable.ofCandidates cs, cs⟩

/-- The overlap that the table of a state holds at row `i`, column `j`. -/
def cell? (st : MergeState α) (i j : Nat) : Option α := st.table[i]?.bind fun row => row[j]?

/-- The table of a state has one row and one column for each candidate, and holds their overlaps off its diagonal. -/
structure Exact (st : MergeState α) : Prop where
  rows : st.table.length = st.candidates.length
  columns : ∀ row ∈ st.table, row.length = st.candidates.length
  cells : ∀ i j a b, i ≠ j → st.candidates[i]? = some a → st.candidates[j]? = some b →
    st.cell? i j = some (a.approximation.overlap b.approximation)

/-- The state before the first turn is exact. -/
theorem exact_start (cs : List (Candidate α)) : (start cs).Exact where
  rows := OverlapTable.length_ofCandidates cs
  columns := by
    intro row hrow
    obtain ⟨i, a, -, rfl⟩ := OverlapTable.exists_of_mem_ofCandidates hrow
    exact OverlapTable.length_rowOf cs i a
  cells := by
    intro i j a b hij ha hb
    have ha' : cs[i]? = some a := ha
    have hb' : cs[j]? = some b := hb
    simp only [cell?, start]
    rw [OverlapTable.getElem?_ofCandidates, ha', Option.map_some, Option.bind_some, OverlapTable.getElem?_rowOf, hb',
      Option.map_some, OverlapTable.cell, if_neg hij]

variable (s : ToleranceSpace α) (c : Corpus α) (rule : MergeRule α)

/-- One turn of the loop: the state and the record of the merge, or nothing when no pair reaches the threshold. -/
def next? (st : MergeState α) : Option (MergeState α × MergeStep α) :=
  match st.table.bestPair? rule.threshold with
  | none => none
  | some p =>
    match Agglomeration.mergePair s c rule.minMembership st.candidates p with
    | none => none
    | some (merged, step) => some (⟨(st.table.remove p.second).refresh merged p.first, merged⟩, step)

/-- The states that the loop reaches from some candidates, each with the merges made on the way. -/
inductive Reaches (cs : List (Candidate α)) : List (MergeStep α) → MergeState α → Prop where
  | start : Reaches cs [] (start cs)
  | turn {history : List (MergeStep α)} {st st' : MergeState α} {step : MergeStep α} :
      Reaches cs history st → st.next? s c rule = some (st', step) → Reaches cs (history ++ [step]) st'

/-- The two candidates of a best pair are there, the one before the other, and overlap by what the pair says. -/
theorem bestPair?_start {cs : List (Candidate α)} {θ : α} {p : OverlapPair α}
    (h : (start cs).table.bestPair? θ = some p) :
    p.first < p.second ∧ p.second < cs.length ∧ ¬p.overlap < θ ∧ ∃ a b, cs[p.first]? = some a ∧
      cs[p.second]? = some b ∧ p.overlap = a.approximation.overlap b.approximation := by
  obtain ⟨hp, hθ⟩ := OverlapTable.bestPair?_mem h
  obtain ⟨hlt, a, b, ha, hb, ho⟩ := OverlapTable.mem_pairs_ofCandidates.1 hp
  exact ⟨hlt, (List.getElem?_eq_some_iff.1 hb).1, hθ, a, b, ha, hb, ho⟩

/-- Two candidates that are there are merged. -/
theorem mergePair_of_getElem? {cs : List (Candidate α)} {p : OverlapPair α} {a b : Candidate α}
    (ha : cs[p.first]? = some a) (hb : cs[p.second]? = some b) :
    Agglomeration.mergePair s c rule.minMembership cs p =
      some ((cs.eraseIdx p.second).set p.first (Agglomeration.absorb s c rule.minMembership a b),
        ⟨a.id, b.id, p.overlap, (Agglomeration.absorb s c rule.minMembership a b).size⟩) := by
  simp only [Agglomeration.mergePair, ha, hb]

/-- After a merge, the renewed table is that of the candidates that are left. -/
theorem renewed_table {cs merged : List (Candidate α)} {p : OverlapPair α} {step : MergeStep α}
    (hlt : p.first < p.second) (hlen : p.second < cs.length)
    (h : Agglomeration.mergePair s c rule.minMembership cs p = some (merged, step)) :
    ((OverlapTable.ofCandidates cs).remove p.second).refresh merged p.first = OverlapTable.ofCandidates merged := by
  unfold Agglomeration.mergePair at h
  split at h
  · simp only [Option.some.injEq, Prod.mk.injEq] at h
    obtain ⟨rfl, -⟩ := h
    have hi : p.first < (cs.eraseIdx p.second).length := by rw [List.length_eraseIdx_of_lt hlen]; omega
    rw [OverlapTable.remove_ofCandidates, OverlapTable.refresh_ofCandidates _ hi]
  · nomatch h

/-- What a turn does: two candidates whose overlap is not below the threshold become one, at the place of the earlier,
and the table is that of the candidates that are left. -/
theorem next?_start_some {cs : List (Candidate α)} {st : MergeState α} {step : MergeStep α}
    (h : (start cs).next? s c rule = some (st, step)) :
    ∃ i j a b, i < j ∧ cs[i]? = some a ∧ cs[j]? = some b ∧
      ¬a.approximation.overlap b.approximation < rule.threshold ∧
      step = ⟨a.id, b.id, a.approximation.overlap b.approximation,
        (Agglomeration.absorb s c rule.minMembership a b).size⟩ ∧
      st = start ((cs.eraseIdx j).set i (Agglomeration.absorb s c rule.minMembership a b)) := by
  unfold next? at h
  split at h
  · nomatch h
  · rename_i p hp
    obtain ⟨hlt, hlen, hθ, a, b, ha, hb, ho⟩ := bestPair?_start hp
    have hm := mergePair_of_getElem? s c rule ha hb
    have ht := renewed_table s c rule hlt hlen hm
    simp only [start, hm, ht, Option.some.injEq, Prod.mk.injEq] at h
    obtain ⟨rfl, rfl⟩ := h
    rw [ho] at hθ
    exact ⟨p.first, p.second, a, b, hlt, ha, hb, hθ, by rw [ho], rfl⟩

/-- A turn ends the loop exactly when no pair reaches the threshold. -/
theorem next?_start_none {cs : List (Candidate α)} :
    (start cs).next? s c rule = none ↔ (start cs).table.bestPair? rule.threshold = none := by
  unfold next?
  cases hp : (start cs).table.bestPair? rule.threshold with
  | none => simp
  | some p =>
    obtain ⟨-, -, -, a, b, ha, hb, -⟩ := bestPair?_start hp
    simp [Agglomeration.mergePair, start, ha, hb]

/-- When no pair reaches the threshold, every two candidates overlap below it. -/
theorem pairwise_of_bestPair?_none {cs : List (Candidate α)} {θ : α} (h : (start cs).table.bestPair? θ = none) :
    cs.Pairwise fun a b => a.approximation.overlap b.approximation < θ := by
  rw [List.pairwise_iff_getElem]
  intro i j hi hj hij
  have hp := OverlapTable.bestPair?_eq_none.1 h ⟨i, j, cs[i].approximation.overlap cs[j].approximation⟩
  exact hp (OverlapTable.mem_pairs_ofCandidates.2
    ⟨hij, cs[i], cs[j], List.getElem?_eq_getElem hi, List.getElem?_eq_getElem hj, rfl⟩)

/-- Every state that the loop reaches holds the exact table of its candidates. -/
theorem Reaches.eq_start {cs : List (Candidate α)} {history : List (MergeStep α)} {st : MergeState α}
    (h : Reaches s c rule cs history st) : st = MergeState.start st.candidates := by
  induction h with
  | start => rfl
  | turn _ hn ih =>
    rw [ih] at hn
    obtain ⟨i, j, a, b, -, -, -, -, -, rfl⟩ := next?_start_some s c rule hn
    rfl

end MergeState

namespace Agglomeration

open MergeState

variable {α : Type} [Scalar α] (s : ToleranceSpace α) (c : Corpus α) (rule : MergeRule α)

/-- The loop, one turn after the other. -/
theorem mergeFrom_succ (fuel : Nat) (st : MergeState α) :
    mergeFrom s c rule (fuel + 1) st.table st.candidates =
      match st.next? s c rule with
      | none => (st.candidates, [])
      | some (st', step) =>
        ((mergeFrom s c rule fuel st'.table st'.candidates).1,
          step :: (mergeFrom s c rule fuel st'.table st'.candidates).2) := by
  rw [mergeFrom, next?]
  cases st.table.bestPair? rule.threshold with
  | none => rfl
  | some p =>
    simp only
    cases mergePair s c rule.minMembership st.candidates p with
    | none => rfl
    | some m => rfl

/-- Keeping the table and computing it before every step come to the same. -/
theorem mergeFrom_eq_rescanFrom (fuel : Nat) (cs : List (Candidate α)) :
    mergeFrom s c rule fuel (OverlapTable.ofCandidates cs) cs = rescanFrom s c rule fuel cs := by
  induction fuel generalizing cs with
  | zero => rfl
  | succ fuel ih =>
    rw [mergeFrom, rescanFrom]
    cases hp : (OverlapTable.ofCandidates cs).bestPair? rule.threshold with
    | none => rfl
    | some p =>
      simp only
      cases hm : mergePair s c rule.minMembership cs p with
      | none => rfl
      | some m =>
        obtain ⟨merged, step⟩ := m
        obtain ⟨hlt, hlen, -⟩ := bestPair?_start hp
        simp only
        rw [renewed_table s c rule hlt hlen hm, ih merged]

/-- A turn leaves one candidate less. -/
theorem length_of_next? {cs : List (Candidate α)} {st : MergeState α} {step : MergeStep α}
    (h : (start cs).next? s c rule = some (st, step)) : st.candidates.length + 1 = cs.length := by
  obtain ⟨i, j, a, b, -, -, hb, -, -, rfl⟩ := next?_start_some s c rule h
  have hj := (List.getElem?_eq_some_iff.1 hb).1
  simp only [start, List.length_set]
  rw [List.length_eraseIdx_of_lt hj]
  omega

/-- With a step for each candidate, the loop goes on from a state it reached until no pair reaches the threshold. -/
theorem reaches_mergeFrom {cs₀ : List (Candidate α)} (fuel : Nat) {history : List (MergeStep α)} {st : MergeState α}
    (hr : Reaches s c rule cs₀ history st) (hf : st.candidates.length ≤ fuel) :
    ∃ last, Reaches s c rule cs₀ (history ++ (mergeFrom s c rule fuel st.table st.candidates).2) last ∧
      last.candidates = (mergeFrom s c rule fuel st.table st.candidates).1 ∧
      last.table.bestPair? rule.threshold = none := by
  induction fuel generalizing history st with
  | zero =>
    have h0 : st.candidates = [] := List.eq_nil_of_length_eq_zero (Nat.le_zero.1 hf)
    refine ⟨st, by rw [mergeFrom, List.append_nil]; exact hr, rfl, ?_⟩
    rw [hr.eq_start, h0]
    rfl
  | succ fuel ih =>
    rw [mergeFrom_succ]
    cases hn : st.next? s c rule with
    | none =>
      refine ⟨st, by rw [List.append_nil]; exact hr, rfl, ?_⟩
      have he := hr.eq_start
      rw [he] at hn ⊢
      exact (next?_start_none s c rule).1 hn
    | some m =>
      obtain ⟨st', step⟩ := m
      have hlen : st'.candidates.length ≤ fuel := by
        have he := hr.eq_start
        rw [he] at hn
        have := length_of_next? s c rule hn
        omega
      obtain ⟨last, hl, hc, hb⟩ := ih (Reaches.turn hr hn) hlen
      refine ⟨last, ?_, hc, hb⟩
      rw [List.append_assoc, List.singleton_append] at hl
      exact hl

/-- What the loop returns is the last of the states it reaches, in which no pair reaches the threshold. -/
theorem reaches_merge (cs : List (Candidate α)) :
    ∃ last, Reaches s c rule cs (merge s c rule cs).2 last ∧ last.candidates = (merge s c rule cs).1 ∧
      last.table.bestPair? rule.threshold = none :=
  reaches_mergeFrom s c rule cs.length (Reaches.start) (Nat.le_refl _)

/-- Merging with a table that is renewed after every step returns the survivors and the history of the plain procedure
that computes all overlaps before every step. In every state on the way the table has one row and one column for each
candidate and holds the overlaps of the candidates as they are; the pair that is merged next is one of two candidates
that are there, the earlier first; and the way ends in a state in which no pair reaches the threshold. -/
theorem mergeUnlessCancelled_eq_mergeByRescan (cs : List (Candidate α)) :
    mergeUnlessCancelled false s c rule cs = .ok (mergeByRescan s c rule cs) ∧
      (∀ history st, Reaches s c rule cs history st → st.Exact ∧
        ∀ p, st.table.bestPair? rule.threshold = some p → p.first < p.second ∧ p.second < st.candidates.length ∧
          st.cell? p.first p.second = some p.overlap) ∧
      ∃ last, Reaches s c rule cs (mergeByRescan s c rule cs).2 last ∧
        last.candidates = (mergeByRescan s c rule cs).1 ∧ last.table.bestPair? rule.threshold = none := by
  have he : merge s c rule cs = mergeByRescan s c rule cs := mergeFrom_eq_rescanFrom s c rule cs.length cs
  refine ⟨congrArg Except.ok he, ?_, ?_⟩
  · intro history st hr
    have hs := hr.eq_start
    rw [hs]
    refine ⟨exact_start st.candidates, ?_⟩
    intro p hp
    obtain ⟨hlt, hlen, -, a, b, ha, hb, ho⟩ := bestPair?_start hp
    refine ⟨hlt, hlen, ?_⟩
    rw [ho]
    exact (exact_start st.candidates).cells p.first p.second a b (Nat.ne_of_lt hlt) ha hb
  · rw [← he]
    exact reaches_merge s c rule cs

end Agglomeration

end ToleranceClustering
