/-!
# Stable sorting

Sorting by insertion, after a comparison into `Ordering`. Elements that compare equal keep the order they came in.

Main statements: sorting is a permutation (`perm_sort`), and its result is ordered wherever the comparison is total
and transitive (`pairwise_sort`).
-/

namespace ToleranceClustering

namespace Sorting

variable {β : Type}

/-- Puts `b` before the first element that does not come before it. -/
def insert (cmp : β → β → Ordering) (b : β) : List β → List β
  | [] => [b]
  | c :: cs => if (cmp b c).isLE then b :: c :: cs else c :: insert cmp b cs

/-- The elements in ascending order of `cmp`, equal ones in the order they came in. -/
def sort (cmp : β → β → Ordering) : List β → List β
  | [] => []
  | b :: bs => insert cmp b (sort cmp bs)

theorem perm_insert (cmp : β → β → Ordering) (b : β) (cs : List β) : (insert cmp b cs).Perm (b :: cs) := by
  induction cs with
  | nil => exact List.Perm.refl _
  | cons c cs ih =>
    simp only [insert]
    split
    · exact List.Perm.refl _
    · exact (ih.cons c).trans (List.Perm.swap b c cs)

theorem perm_sort (cmp : β → β → Ordering) (bs : List β) : (sort cmp bs).Perm bs := by
  induction bs with
  | nil => exact List.Perm.refl _
  | cons b bs ih => exact (perm_insert cmp b _).trans (ih.cons b)

theorem pairwise_insert {cmp : β → β → Ordering} (total : ∀ a b, (cmp a b).isLE ∨ (cmp b a).isLE)
    (trans : ∀ a b c, (cmp a b).isLE → (cmp b c).isLE → (cmp a c).isLE) (b : β) {cs : List β}
    (h : cs.Pairwise fun x y => (cmp x y).isLE) : (insert cmp b cs).Pairwise fun x y => (cmp x y).isLE := by
  induction cs with
  | nil => simp [insert]
  | cons c cs ih =>
    obtain ⟨hc, hcs⟩ := List.pairwise_cons.1 h
    simp only [insert]
    split
    · rename_i hbc
      refine List.pairwise_cons.2 ⟨fun a ha => ?_, h⟩
      rcases List.mem_cons.1 ha with rfl | ha
      · exact hbc
      · exact trans _ _ _ hbc (hc a ha)
    · rename_i hbc
      refine List.pairwise_cons.2 ⟨fun a ha => ?_, ih hcs⟩
      rcases List.mem_cons.1 ((perm_insert cmp b cs).mem_iff.1 ha) with rfl | ha
      · exact (total a c).resolve_left hbc
      · exact hc a ha

theorem pairwise_sort {cmp : β → β → Ordering} (total : ∀ a b, (cmp a b).isLE ∨ (cmp b a).isLE)
    (trans : ∀ a b c, (cmp a b).isLE → (cmp b c).isLE → (cmp a c).isLE) (bs : List β) :
    (sort cmp bs).Pairwise fun x y => (cmp x y).isLE := by
  induction bs with
  | nil => exact List.Pairwise.nil
  | cons b bs ih => exact pairwise_insert total trans b ih

end Sorting

end ToleranceClustering
