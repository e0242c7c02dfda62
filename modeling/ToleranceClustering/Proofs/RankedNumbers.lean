import ToleranceClustering.Proofs.Laws
import ToleranceClustering.Proofs.StableSorting

/-!
# Ranked numbers

Rankings compare numbers by `order`, which settles also what `<` leaves open. `Ranked` says that it does so as a total
order that agrees with `<` on positive numbers, and that adding zero changes none of these.

A sum of positive numbers is then the same with zeros in it (`sum_map_getD`), and of two positive numbers the order puts
the larger one first, or they are equal (`lt_or_eq_of_order`).
-/

namespace ToleranceClustering

namespace Scalar

/-- `order` is a total order, on positive numbers that of `<`, and zeros do not count in sums of positive numbers. -/
class Ranked (α : Type) [Scalar α] : Prop extends Normal α where
  transCmp : Std.TransCmp (order : α → α → Ordering)
  order_eq_lt : ∀ {x y : α}, 0 < x → 0 < y → (order x y = .lt ↔ x < y)
  zero_add_zero : (0 : α) + 0 = 0
  zero_add : ∀ {x : α}, 0 < x → 0 + x = x
  add_zero : ∀ {x : α}, 0 < x → x + 0 = x

variable {α : Type} [Scalar α] [Ranked α]

open Ordered Rounded

instance : Std.TransCmp (order : α → α → Ordering) := Ranked.transCmp

/-- A positive number is below one that the order does not put before it, or the two are equal. -/
theorem lt_or_eq_of_order {x y : α} (hx : 0 < x) (hy : 0 < y) (h : (order x y).isLE) : x < y ∨ x = y := by
  have nx := right_number (le_of_lt hx)
  have ny := right_number (le_of_lt hy)
  rcases le_or_lt ny nx with hle | hlt
  · rcases le_or_lt nx ny with hle' | hlt
    · exact Or.inr (Normal.eq_of_le_of_le hx hle' hle)
    · have hgt := Std.OrientedCmp.gt_of_lt ((Ranked.order_eq_lt hy hx).2 hlt)
      rw [hgt] at h
      nomatch h
  · exact Or.inl hlt

/-! ## Sums with zeros -/

theorem add_pos {x y : α} (hx : 0 < x) (hy : 0 < y) : 0 < x + y :=
  lt_of_lt_of_le hx (le_add_right (le_of_lt hx) (le_of_lt hy))

/-- A sum that has begun takes no notice of what is missing. -/
theorem foldl_map_getD {ws : List (Option α)} (h : ∀ w ∈ ws.filterMap id, 0 < w) {x : α} (hx : 0 < x) :
    (ws.map fun w => w.getD 0).foldl (· + ·) x = (ws.filterMap id).foldl (· + ·) x := by
  induction ws generalizing x with
  | nil => rfl
  | cons w ws ih =>
    cases w with
    | none =>
      rw [List.map_cons, List.foldl_cons, Option.getD_none, Ranked.add_zero hx, ih h hx]
      rfl
    | some w =>
      obtain ⟨hw, hws⟩ := List.forall_mem_cons.1 (show ∀ v ∈ w :: ws.filterMap id, 0 < v from h)
      rw [List.map_cons, List.foldl_cons, Option.getD_some, ih hws (add_pos hx hw)]
      rfl

/-- Neither does one that begins with zero. -/
theorem foldl_zero_map_getD {ws : List (Option α)} (h : ∀ w ∈ ws.filterMap id, 0 < w) :
    (ws.map fun w => w.getD 0).foldl (· + ·) 0 = sum (ws.filterMap id) := by
  induction ws with
  | nil => rfl
  | cons w ws ih =>
    cases w with
    | none =>
      rw [List.map_cons, List.foldl_cons, Option.getD_none, Ranked.zero_add_zero, ih h]
      rfl
    | some w =>
      obtain ⟨hw, hws⟩ := List.forall_mem_cons.1 (show ∀ v ∈ w :: ws.filterMap id, 0 < v from h)
      rw [List.map_cons, List.foldl_cons, Option.getD_some, Ranked.zero_add hw, foldl_map_getD hws hw]
      rfl

/-- Positive numbers sum to the same with a zero for each that is missing. -/
theorem sum_map_getD {ws : List (Option α)} (h : ∀ w ∈ ws.filterMap id, 0 < w) :
    sum (ws.map fun w => w.getD 0) = sum (ws.filterMap id) := by
  cases ws with
  | nil => rfl
  | cons w ws =>
    cases w with
    | none => exact foldl_zero_map_getD h
    | some w =>
      obtain ⟨hw, hws⟩ := List.forall_mem_cons.1 (show ∀ v ∈ w :: ws.filterMap id, 0 < v from h)
      exact foldl_map_getD hws hw

/-- A sum of positive numbers is positive, if there are any. -/
theorem sum_pos {xs : List α} (h : ∀ x ∈ xs, 0 < x) (hne : xs ≠ []) : 0 < sum xs := by
  obtain ⟨x, xs, rfl⟩ := List.exists_cons_of_ne_nil hne
  have hle : sum [x] ≤ sum (x :: xs) := sum_le_sum (by simp) fun y hy => le_of_lt (h y hy)
  exact lt_of_lt_of_le (h x List.mem_cons_self) hle

end Scalar
end ToleranceClustering
