import Mathlib.Data.List.Sort
import ToleranceClustering.Approximation

/-!
# Ascending lists as sets

An ascending list is determined by its elements, so the sets of the library are equal as lists as soon as they hold the
same numbers. The two-pointer count and the overlap built on it do not depend on the order of the two lists, whatever
these are.
-/

namespace ToleranceClustering

namespace Ascending

/-- Two ascending lists with the same elements are the same list. -/
theorem ext {xs ys : List Nat} (hx : Ascending xs) (hy : Ascending ys) (h : ∀ a, a ∈ xs ↔ a ∈ ys) : xs = ys := by
  have nx : xs.Nodup := hx.imp Nat.ne_of_lt
  have ny : ys.Nodup := hy.imp Nat.ne_of_lt
  exact ((List.perm_ext_iff_of_nodup nx ny).2 h).eq_of_pairwise
    (fun a b _ _ hab hba => absurd hba (Nat.lt_asymm hab)) hx hy

theorem nodup {xs : List Nat} (h : Ascending xs) : xs.Nodup := h.imp Nat.ne_of_lt

/-- A filter of an ascending list is ascending. -/
theorem filter {xs : List Nat} (h : Ascending xs) (p : Nat → Bool) : Ascending (xs.filter p) :=
  List.Pairwise.sublist List.filter_sublist h

theorem ascending_range (n : Nat) : Ascending (List.range n) := List.pairwise_lt_range

/-- Counting common elements does not depend on which list comes first, not even for lists that are not ascending. -/
theorem sharedCount_comm (xs ys : List Nat) : sharedCount xs ys = sharedCount ys xs := by
  induction xs generalizing ys with
  | nil => rw [sharedCount_nil_right]; rfl
  | cons x xs ih =>
    induction ys with
    | nil => rw [sharedCount_nil_right]; rfl
    | cons y ys ihy =>
      rw [sharedCount_cons_cons, sharedCount_cons_cons]
      rcases Nat.lt_trichotomy x y with h | h | h
      · rw [if_pos h, if_neg (Nat.lt_asymm h), if_pos h]
        exact ih (y :: ys)
      · subst h
        simp only [Nat.lt_irrefl, if_false]
        rw [ih ys]
      · rw [if_neg (Nat.lt_asymm h), if_pos h, if_pos h]
        exact ihy

/-- A list shares all its elements with itself. -/
theorem sharedCount_self (xs : List Nat) : sharedCount xs xs = xs.length := by
  induction xs with
  | nil => rfl
  | cons x xs ih =>
    rw [sharedCount_cons_cons]
    simp [ih]

/-- No more elements are shared than the first list has. -/
theorem sharedCount_le_left (xs ys : List Nat) : sharedCount xs ys ≤ xs.length := by
  induction xs generalizing ys with
  | nil => exact Nat.le_refl 0
  | cons x xs ih =>
    induction ys with
    | nil => rw [sharedCount_nil_right]; exact Nat.zero_le _
    | cons y ys ihy =>
      rw [sharedCount_cons_cons, List.length_cons]
      split
      · exact Nat.le_succ_of_le (ih (y :: ys))
      · split
        · exact ihy
        · exact Nat.succ_le_succ (ih ys)

theorem sharedCount_le_right (xs ys : List Nat) : sharedCount xs ys ≤ ys.length :=
  sharedCount_comm xs ys ▸ sharedCount_le_left ys xs

end Ascending

namespace Approximation

variable {α : Type}

theorem length_positions (a : Approximation α) : a.positions.length = a.size := List.length_map _

variable [Scalar α]

/-- The overlap is symmetric, for members in any order. -/
theorem overlap_comm (a b : Approximation α) : a.overlap b = b.overlap a := by
  unfold overlap
  rw [Ascending.sharedCount_comm a.positions b.positions, Nat.add_comm a.size b.size]

/-- Two approximations that cover the same positions overlap by the quotient of their size with itself. -/
theorem overlap_of_positions_eq {a b : Approximation α} (h : a.positions = b.positions) (hne : a.positions ≠ []) :
    a.overlap b = (a.size : α) / (a.size : α) := by
  have hs : b.size = a.size := by rw [← length_positions a, ← length_positions b, h]
  have hc : Ascending.sharedCount a.positions b.positions = a.size := by
    rw [← h, Ascending.sharedCount_self, length_positions]
  have hpos : a.size ≠ 0 := by
    rw [← length_positions a]
    exact fun h0 => hne (List.eq_nil_of_length_eq_zero h0)
  unfold overlap
  rw [hc, hs]
  simp only [Nat.add_sub_cancel, hpos, if_false]

end Approximation

end ToleranceClustering
