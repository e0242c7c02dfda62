import Mathlib.Order.Compare
import ToleranceClustering.Sorting

/-!
# What sorting settles

Sorting by a total order puts a list in order (`pairwise_sort_of_transCmp`), strictly so where no two elements compare
equal (`pairwise_sort_lt`), and then forgets the order they came in (`sort_eq_of_perm`). Elements that do compare equal
keep it (`filter_sort`).
-/

namespace ToleranceClustering
namespace Sorting

variable {β : Type} (cmp : β → β → Ordering) [Std.TransCmp cmp]

/-- Sorting by a total order puts a list in order. -/
theorem pairwise_sort_of_transCmp (bs : List β) : (sort cmp bs).Pairwise fun x y => (cmp x y).isLE := by
  refine pairwise_sort ?_ (fun _ _ _ => Std.TransCmp.isLE_trans) bs
  intro a b
  have hswap : cmp a b = (cmp b a).swap := Std.OrientedCmp.eq_swap
  rw [hswap]
  cases cmp b a <;> simp

/-! ## Elements apart -/

/-- No two elements compare equal. -/
def Apart (bs : List β) : Prop := bs.Pairwise fun a b => cmp a b ≠ .eq

variable {cmp}

theorem ne_eq_symm {a b : β} (h : cmp a b ≠ .eq) : cmp b a ≠ .eq := fun he => h (Std.OrientedCmp.eq_symm he)

theorem Apart.perm {bs cs : List β} (h : Apart cmp bs) (hperm : bs.Perm cs) : Apart cmp cs :=
  List.Pairwise.perm h hperm ne_eq_symm

/-- Sorting elements apart puts each strictly before those behind it. -/
theorem pairwise_sort_lt {bs : List β} (h : Apart cmp bs) : (sort cmp bs).Pairwise fun a b => cmp a b = .lt := by
  refine ((pairwise_sort_of_transCmp cmp bs).and (h.perm (perm_sort cmp bs).symm)).imp ?_
  rintro a b ⟨hle, hne⟩
  exact (Ordering.isLE_iff_eq_lt_or_eq_eq.1 hle).resolve_right hne

/-- What the order says of two elements apart holds along their sorted list. -/
theorem Apart.pairwise_sort {bs : List β} (hapart : Apart cmp bs) {r : β → β → Prop}
    (h : ∀ a ∈ bs, ∀ b ∈ bs, cmp a b = .lt → r a b) : (sort cmp bs).Pairwise r := by
  refine (pairwise_sort_lt hapart).imp_of_mem ?_
  intro a b ha hb
  exact h a ((perm_sort cmp bs).mem_iff.1 ha) b ((perm_sort cmp bs).mem_iff.1 hb)

/-- Sorting elements, each with a figure, puts them in another order. -/
theorem perm_map_fst_sort {γ δ : Type} (cmp : γ × δ → γ × δ → Ordering) (figure : γ → δ) (xs : List γ) :
    ((sort cmp (xs.map fun x => (x, figure x))).map Prod.fst).Perm xs := by
  have hperm := (perm_sort cmp (xs.map fun x => (x, figure x))).map Prod.fst
  rw [List.map_map] at hperm
  exact hperm.trans (List.Perm.of_eq (List.map_id _))

/-- Elements apart are sorted the same, whatever order they come in. -/
theorem sort_eq_of_perm {bs cs : List β} (h : Apart cmp bs) (hperm : bs.Perm cs) : sort cmp bs = sort cmp cs := by
  have hsorted : (sort cmp bs).Perm (sort cmp cs) :=
    (perm_sort cmp bs).trans (hperm.trans (perm_sort cmp cs).symm)
  refine hsorted.eq_of_pairwise ?_ (pairwise_sort_lt h) (pairwise_sort_lt (h.perm hperm))
  intro a b _ _ hab hba
  rw [Std.OrientedCmp.gt_of_lt hab] at hba
  nomatch hba

/-! ## Elements that compare equal -/

theorem filter_insert (q b : β) (cs : List β) :
    (insert cmp b cs).filter (fun x => cmp x q == .eq) = (b :: cs).filter fun x => cmp x q == .eq := by
  induction cs with
  | nil => rfl
  | cons c cs ih =>
    simp only [insert]
    split
    · rfl
    · rename_i hpassed
      rw [List.filter_cons, ih]
      by_cases hb : cmp b q = .eq
      · -- what `b` passes does not compare equal to it, so it cannot to `q` either
        have hc : cmp c q ≠ .eq := by
          intro hc
          have hbc : cmp b c = .eq := Std.TransCmp.eq_trans hb (Std.OrientedCmp.eq_symm hc)
          rw [hbc] at hpassed
          exact hpassed rfl
        simp [hb, hc]
      · simp [List.filter_cons, hb]

/-- The elements that compare equal to a given one keep the order they came in. -/
theorem filter_sort (q : β) (bs : List β) :
    (sort cmp bs).filter (fun x => cmp x q == .eq) = bs.filter fun x => cmp x q == .eq := by
  induction bs with
  | nil => rfl
  | cons b bs ih => rw [sort, filter_insert, List.filter_cons, List.filter_cons, ih]

end Sorting
end ToleranceClustering
