import Mathlib.Data.List.Sort
import ToleranceClustering.Approximation
import ToleranceClustering.Proofs.Laws

/-!
# Membership

The membership of a document in a term set: nothing for a document without terms (`membership_of_isEmpty`), not positive
where the document holds none of the terms (`not_membership_pos`), and no smaller in a larger term set
(`membership_le_membership`).
-/

namespace ToleranceClustering

/-- A table has a value at its keys. -/
theorem Table.isSome_find?_iff {β : Type} (t : Table β) (k : Nat) : (t.find? k).isSome ↔ k ∈ t.keys := by
  unfold Table.find? Table.keys
  induction t.entries with
  | nil => simp
  | cons e es ih =>
    rw [Table.lookup_cons_eq, List.map_cons, List.mem_cons]
    split
    · rename_i h
      simp [h]
    · rename_i h
      rw [ih]
      simp [h]

variable {α : Type} [Scalar α]

namespace TermVector

theorem contains_iff (v : TermVector α) (t : Nat) : v.contains t = true ↔ t ∈ v.terms := Table.isSome_find?_iff _ _

theorem ascending_terms (v : TermVector α) : Ascending v.terms := v.weights.ascending

theorem isEmpty_iff (v : TermVector α) : v.isEmpty = true ↔ v.terms = [] := by
  unfold isEmpty entries terms Table.keys
  rw [List.isEmpty_iff, List.map_eq_nil_iff]

end TermVector

/-- The weights of a vector that lie on some terms, in term order. -/
def inside (v : TermVector α) (terms : List TermId) : List α :=
  (v.entries.filter fun e => terms.contains e.1).map Prod.snd

/-- Weights on fewer terms are some of the weights on more. -/
theorem inside_sublist_inside (v : TermVector α) {ts us : List TermId} (h : ∀ t ∈ ts, t ∈ us) :
    (inside v ts).Sublist (inside v us) := by
  refine List.Sublist.map _ (List.monotone_filter_right _ ?_)
  intro e he
  rw [List.contains_iff_mem] at he ⊢
  exact h _ he

theorem inside_congr (v : TermVector α) {ts us : List TermId} (h : ∀ t, t ∈ ts ↔ t ∈ us) : inside v ts = inside v us := by
  unfold inside
  congr 1
  refine List.filter_congr ?_
  intro e _
  rw [Bool.eq_iff_iff, List.contains_iff_mem, List.contains_iff_mem]
  exact h e.1

theorem inside_eq_nil {v : TermVector α} {ts : List TermId} (h : ∀ t ∈ ts, v.contains t = false) : inside v ts = [] := by
  unfold inside
  rw [List.map_eq_nil_iff, List.filter_eq_nil_iff]
  intro e he hmem
  have hc := h e.1 (List.contains_iff_mem.1 hmem)
  rw [← Bool.not_eq_true, TermVector.contains_iff] at hc
  exact hc (List.mem_map_of_mem he)

theorem membership_eq (v : TermVector α) (ts : List TermId) :
    membership v ts = if v.total ≤ 0 then 0 else Scalar.clamp 0 1 (Scalar.sum (inside v ts) / v.total) := rfl

/-- Only the terms of a set count, not how they are listed. -/
theorem membership_congr (v : TermVector α) {ts us : List TermId} (h : ∀ t, t ∈ ts ↔ t ∈ us) :
    membership v ts = membership v us := by
  rw [membership_eq, membership_eq, inside_congr v h]

section Laws

variable [Scalar.Rounded α]

open Scalar Scalar.Ordered Scalar.Rounded

/-- A document without terms is a member of nothing. -/
theorem membership_of_isEmpty {v : TermVector α} (h : v.isEmpty = true) (ts : List TermId) : membership v ts = 0 := by
  have hv : v.total = 0 := by
    have he : v.weights.entries = [] := List.isEmpty_iff.1 h
    unfold TermVector.total Table.values
    rw [he]
    rfl
  rw [membership_eq, hv, if_pos zero_le_zero]

/-- A positive membership is a positive share of a positive total. -/
theorem share_pos {v : TermVector α} {ts : List TermId} (h : 0 < membership v ts) :
    ¬v.total ≤ 0 ∧ 0 < Scalar.sum (inside v ts) / v.total := by
  rw [membership_eq] at h
  split at h
  · exact absurd h (lt_irrefl 0)
  · rename_i ht
    exact ⟨ht, pos_of_clamp_pos h⟩

/-- A document with none of the terms has no positive membership in them. -/
theorem not_membership_pos {v : TermVector α} {ts : List TermId} (h : ∀ t ∈ ts, v.contains t = false) :
    ¬0 < membership v ts := by
  intro hpos
  have hshare := (share_pos hpos).2
  rw [inside_eq_nil h] at hshare
  exact not_pos_zero_div _ hshare

theorem weights_nonneg (v : TermVector α) : ∀ w ∈ v.weights.values, 0 ≤ w := by
  intro w hw
  obtain ⟨e, he, rfl⟩ := List.mem_map.1 hw
  exact le_of_lt (v.positive e he).1

theorem inside_nonneg (v : TermVector α) (ts : List TermId) : ∀ w ∈ inside v ts, 0 ≤ w := by
  intro w hw
  obtain ⟨e, he, rfl⟩ := List.mem_map.1 hw
  exact le_of_lt (v.positive e (List.mem_filter.1 he).1).1

/-- A positive membership does not shrink when terms are added: the weight inside only grows, and rounded sums and
quotients keep the order. -/
theorem membership_le_membership {v : TermVector α} {ts us : List TermId} (h : ∀ t ∈ ts, t ∈ us)
    (hpos : 0 < membership v ts) : membership v ts ≤ membership v us := by
  obtain ⟨ht, hshare⟩ := share_pos hpos
  have htotal : 0 < v.total := by
    have hn : 0 ≤ v.total := sum_nonneg (weights_nonneg v)
    exact lt_of_not_le (right_number hn) zero_le_zero ht
  rw [membership_eq, membership_eq, if_neg ht, if_neg ht]
  refine clamp_le_clamp hshare (div_le_div (sum_nonneg (inside_nonneg v ts)) ?_ htotal hshare)
  exact sum_le_sum (inside_sublist_inside v h) (inside_nonneg v us)

end Laws

end ToleranceClustering
