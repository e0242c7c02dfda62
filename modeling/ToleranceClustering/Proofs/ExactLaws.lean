import ToleranceClustering.Proofs.ExactMeasures
import ToleranceClustering.Proofs.RankedNumbers

/-!
# Laws of exact arithmetic

Exact numbers obey every law that rounded ones do (`Scalar.Ranked`), so what holds of a run over binary64 by these laws
holds without rounding as well. Here numbers also add up in any order: a sum is that of the values (`sum_value`).
-/

namespace ToleranceClustering
namespace Exact

variable {x y : Exact}

/-- Exact numbers are ordered by their values. -/
theorem le_iff : x ≤ y ↔ x.value ≤ y.value := Iff.rfl

/-- The strict order is that of the values, too. -/
theorem lt_iff : x < y ↔ x.value < y.value := Iff.rfl

@[simp]
theorem zero_value : (0 : Exact).value = 0 := rfl

@[simp]
theorem one_value : (1 : Exact).value = 1 := rfl

/-- The exact number of a natural number has its value. -/
@[simp]
theorem natCast_value (n : Nat) : (n : Exact).value = n := rfl

/-- Different natural numbers are different exact numbers. -/
theorem natCast_inj {m n : Nat} : (m : Exact) = (n : Exact) ↔ m = n := by
  rw [Exact.ext_iff, natCast_value, natCast_value, Nat.cast_inj]

/-- Exact numbers are added without rounding. -/
@[simp]
theorem add_value : (x + y).value = x.value + y.value := rfl

/-- Exact numbers are multiplied without rounding. -/
@[simp]
theorem mul_value : (x * y).value = x.value * y.value := rfl

/-- Exact numbers are divided without rounding. -/
@[simp]
theorem div_value : (x / y).value = x.value / y.value := rfl

instance : Scalar.Ranked Exact where
  lt_irrefl x := lt_irrefl x.value
  le_of_lt h := (lt_iff.1 h).le
  le_trans h h' := (le_iff.1 h).trans h'
  lt_of_lt_of_le h h' := (lt_iff.1 h).trans_le h'
  lt_of_le_of_lt h h' := (le_iff.1 h).trans_lt h'
  left_number _ := le_refl (_ : ℝ)
  right_number _ := le_refl (_ : ℝ)
  le_or_lt _ _ := le_or_gt (_ : ℝ) _
  zero_lt_one := zero_lt_one' ℝ
  add_le_add_right _ h _ := add_le_add_left (le_iff.1 h) _
  le_add_right _ h := le_add_of_nonneg_right (le_iff.1 h)
  le_add_left h _ := le_add_of_nonneg_left (le_iff.1 h)
  div_le_div _ h ht _ := div_le_div_of_nonneg_right (le_iff.1 h) (lt_iff.1 ht).le
  not_pos_zero_div x h := (lt_iff.1 h).ne' (zero_div x.value)
  not_div_self_lt_one hn h := (lt_iff.1 h).ne (div_self (Nat.cast_ne_zero.2 hn.ne'))
  pos_of_zero_add h := (lt_iff.1 h).trans_eq (zero_add _)
  isFinite_of_zero_add _ := rfl
  div_natCast_number _ _ _ := le_refl (_ : ℝ)
  eq_of_le_of_le _ h h' := Exact.ext (le_antisymm h h')
  natCast_le_one_mul h := by
    rw [le_iff, mul_value, one_value, one_mul]
    exact Nat.cast_le.2 h
  transCmp := inferInstanceAs (Std.TransCmp (compareOn Exact.value))
  order_eq_lt _ _ := compare_lt_iff_lt
  zero_add_zero := Exact.ext (zero_add 0)
  zero_add _ := Exact.ext (zero_add _)
  add_zero _ := Exact.ext (add_zero _)

/-- Adding the numbers of a list to one adds their values to its value. -/
theorem foldl_value (xs : List Exact) (acc : Exact) :
    (xs.foldl (· + ·) acc).value = acc.value + (xs.map Exact.value).sum := by
  induction xs generalizing acc with
  | nil => exact (add_zero _).symm
  | cons x xs ih => rw [List.foldl_cons, ih, add_value, List.map_cons, List.sum_cons, add_assoc]

/-- The sum of a list is that of its values. -/
theorem sum_value (xs : List Exact) : (Scalar.sum xs).value = (xs.map Exact.value).sum := by
  cases xs with
  | nil => rfl
  | cons x xs => exact foldl_value xs x

end Exact
end ToleranceClustering
