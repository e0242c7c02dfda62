import Mathlib.Algebra.Group.Nat.Defs
import ToleranceClustering.Scalar

/-!
# Laws of rounded arithmetic

What the theorems about a clustering need of its numbers. `Ordered` says that `<` and `≤` compare any two values that are
numbers at all; `Rounded` adds that sums and quotients of numbers that are not negative keep the order, which correctly
rounded arithmetic does although its addition is not associative.

`Normal` adds what counts and positive numbers have besides: a representation of their own.

From these laws: leaving summands out makes a sum no larger (`sum_le_sum`), clamping keeps the order (`clamp_le_clamp`),
and the largest of some numbers is one of them and below none (`isLargest_foldl_max`), whatever their order is
(`foldl_max_perm`).
-/

namespace ToleranceClustering
namespace Scalar

/-- `<` and `≤` fit together, and of two numbers one is below the other or they are at most each other. What is no
number compares with nothing, itself included. -/
class Ordered (α : Type) [Scalar α] : Prop where
  lt_irrefl : ∀ x : α, ¬x < x
  le_of_lt : ∀ {x y : α}, x < y → x ≤ y
  le_trans : ∀ {x y z : α}, x ≤ y → y ≤ z → x ≤ z
  lt_of_lt_of_le : ∀ {x y z : α}, x < y → y ≤ z → x < z
  lt_of_le_of_lt : ∀ {x y z : α}, x ≤ y → y < z → x < z
  left_number : ∀ {x y : α}, x ≤ y → x ≤ x
  right_number : ∀ {x y : α}, x ≤ y → y ≤ y
  le_or_lt : ∀ {x y : α}, x ≤ x → y ≤ y → x ≤ y ∨ y < x
  zero_lt_one : (0 : α) < 1

/-- Sums and quotients of numbers that are not negative keep the order. -/
class Rounded (α : Type) [Scalar α] : Prop extends Ordered α where
  add_le_add_right : ∀ {x y z : α}, 0 ≤ x → x ≤ y → 0 ≤ z → x + z ≤ y + z
  le_add_right : ∀ {x y : α}, 0 ≤ x → 0 ≤ y → x ≤ x + y
  le_add_left : ∀ {x y : α}, 0 ≤ x → 0 ≤ y → y ≤ x + y
  div_le_div : ∀ {x y t : α}, 0 ≤ x → x ≤ y → 0 < t → 0 < x / t → x / t ≤ y / t
  not_pos_zero_div : ∀ x : α, ¬0 < 0 / x
  not_div_self_lt_one : ∀ {n : Nat}, 0 < n → ¬(n : α) / (n : α) < 1
  pos_of_zero_add : ∀ {x : α}, 0 < 0 + x → 0 < x
  isFinite_of_zero_add : ∀ {x : α}, isFinite (0 + x) = true → isFinite x = true
  div_natCast_number : ∀ {m n : Nat}, m ≤ n → 0 < n → n < 2 ^ 128 → (m : α) / (n : α) ≤ (m : α) / (n : α)

/-- No two positive numbers are at most each other, and one times a count is not below a smaller count. -/
class Normal (α : Type) [Scalar α] : Prop extends Rounded α where
  eq_of_le_of_le : ∀ {x y : α}, 0 < x → x ≤ y → y ≤ x → x = y
  natCast_le_one_mul : ∀ {m n : Nat}, m ≤ n → (m : α) ≤ 1 * (n : α)

variable {α : Type} [Scalar α]

theorem clamp_of_neg {x : α} (h : x < 0) : clamp 0 1 x = 0 := if_pos h

theorem clamp_of_between {x : α} (h : ¬x < 0) (h' : ¬1 < x) : clamp 0 1 x = x := by
  rw [clamp, if_neg h, if_neg h']

theorem max_of_lt {x y : α} (h : x < y) : max x y = y := if_pos h

theorem max_of_not_lt {x y : α} (h : ¬x < y) : max x y = x := if_neg h

/-! ## The order -/

section Order

variable [Ordered α]

open Ordered

theorem lt_trans {x y z : α} (h : x < y) (h' : y < z) : x < z := lt_of_lt_of_le h (le_of_lt h')

theorem zero_le_zero : (0 : α) ≤ 0 := left_number (le_of_lt zero_lt_one)

theorem one_le_one : (1 : α) ≤ 1 := right_number (le_of_lt zero_lt_one)

theorem not_lt_of_le {x y : α} (h : x ≤ y) : ¬y < x := fun h' => lt_irrefl x (lt_of_le_of_lt h h')

/-- Of two numbers, one that is not below the other is at least as large. -/
theorem le_of_not_lt {x y : α} (hx : x ≤ x) (hy : y ≤ y) (h : ¬y < x) : x ≤ y :=
  (le_or_lt hx hy).resolve_right h

/-- Of two numbers, one that is not at most the other is larger. -/
theorem lt_of_not_le {x y : α} (hx : x ≤ x) (hy : y ≤ y) (h : ¬x ≤ y) : y < x :=
  (le_or_lt hx hy).resolve_left h

/-! ## Clamping -/

theorem clamp_of_gt {x : α} (h : 1 < x) : clamp 0 1 x = 1 := by
  rw [clamp, if_neg (not_lt_of_le (le_of_lt (lt_trans zero_lt_one h))), if_pos h]

/-- A clamped number is positive only if it was so before. -/
theorem pos_of_clamp_pos {x : α} (h : 0 < clamp 0 1 x) : 0 < x := by
  by_cases h₀ : x < 0
  · rw [clamp_of_neg h₀] at h
    exact absurd h (lt_irrefl 0)
  · by_cases h₁ : 1 < x
    · exact lt_trans zero_lt_one h₁
    · rwa [clamp_of_between h₀ h₁] at h

/-- Clamping to the unit interval keeps the order of positive numbers. -/
theorem clamp_le_clamp {x y : α} (hx : 0 < x) (h : x ≤ y) : clamp 0 1 x ≤ clamp 0 1 y := by
  have hx₀ : ¬x < 0 := not_lt_of_le (le_of_lt hx)
  have hy₀ : ¬y < 0 := not_lt_of_le (le_of_lt (lt_of_lt_of_le hx h))
  by_cases h₁ : 1 < x
  · rw [clamp_of_gt h₁, clamp_of_gt (lt_of_lt_of_le h₁ h)]
    exact one_le_one
  · rw [clamp_of_between hx₀ h₁]
    by_cases h₂ : 1 < y
    · rw [clamp_of_gt h₂]
      exact le_of_not_lt (left_number h) one_le_one h₁
    · rw [clamp_of_between hy₀ h₂]
      exact h

/-! ## The largest -/

/-- `m` is the largest of `xs`, or zero if none of them is positive. What is no number in `xs` does not count. -/
def IsLargest (xs : List α) (m : α) : Prop := (m = 0 ∨ m ∈ xs ∧ 0 < m) ∧ ∀ x ∈ xs, x ≤ x → x ≤ m

/-- Taking the larger number step by step ends with the first number or with a larger one of the list. -/
theorem foldl_max_cases (xs : List α) (x : α) :
    xs.foldl max x = x ∨ xs.foldl max x ∈ xs ∧ x < xs.foldl max x := by
  induction xs generalizing x with
  | nil => exact Or.inl rfl
  | cons y ys ih =>
    rw [List.foldl_cons]
    by_cases h : x < y
    · rw [max_of_lt h]
      rcases ih y with he | ⟨hmem, hlt⟩
      · rw [he]
        exact Or.inr ⟨List.mem_cons_self, h⟩
      · exact Or.inr ⟨List.mem_cons_of_mem _ hmem, lt_trans h hlt⟩
    · rw [max_of_not_lt h]
      rcases ih x with he | ⟨hmem, hlt⟩
      · exact Or.inl he
      · exact Or.inr ⟨List.mem_cons_of_mem _ hmem, hlt⟩

/-- The outcome is not below the number it began with. -/
theorem not_foldl_max_lt_start (xs : List α) (x : α) : ¬xs.foldl max x < x := by
  intro h
  rcases foldl_max_cases xs x with he | ⟨-, hlt⟩
  · rw [he] at h
    exact lt_irrefl x h
  · exact lt_irrefl x (lt_trans hlt h)

/-- The outcome is below no number of the list. -/
theorem not_foldl_max_lt {xs : List α} {y : α} (hy : y ∈ xs) (x : α) : ¬xs.foldl max x < y := by
  induction xs generalizing x with
  | nil => exact absurd hy List.not_mem_nil
  | cons z zs ih =>
    rw [List.foldl_cons]
    rcases List.mem_cons.1 hy with rfl | hmem
    · by_cases h : x < y
      · rw [max_of_lt h]
        exact not_foldl_max_lt_start zs y
      · rw [max_of_not_lt h]
        intro hlt
        rcases foldl_max_cases zs x with he | ⟨-, hgt⟩
        · rw [he] at hlt
          exact h hlt
        · exact h (lt_trans hgt hlt)
    · exact ih hmem _

theorem foldl_max_number (xs : List α) : xs.foldl max 0 ≤ xs.foldl max (0 : α) := by
  rcases foldl_max_cases xs (0 : α) with he | ⟨-, hlt⟩
  · rw [he]
    exact zero_le_zero
  · exact right_number (le_of_lt hlt)

theorem isLargest_foldl_max (xs : List α) : IsLargest xs (xs.foldl max 0) :=
  ⟨foldl_max_cases xs 0, fun _ hx hn => le_of_not_lt hn (foldl_max_number xs) (not_foldl_max_lt hx 0)⟩

end Order

theorem IsLargest.le [Ordered α] {xs ys : List α} {x y : α} (hx : IsLargest xs x) (hy : IsLargest ys y)
    (h : ∀ a ∈ xs, a ∈ ys) (hpos : 0 < x) : x ≤ y := by
  obtain rfl | ⟨hmem, -⟩ := hx.1
  · exact absurd hpos (Ordered.lt_irrefl 0)
  · exact hy.2 x (h x hmem) (Ordered.right_number (Ordered.le_of_lt hpos))

/-- Two lists of the same numbers have the same largest. -/
theorem IsLargest.eq [Normal α] {xs ys : List α} {x y : α} (hx : IsLargest xs x) (hy : IsLargest ys y)
    (h : ∀ a, a ∈ xs ↔ a ∈ ys) : x = y := by
  obtain rfl | ⟨-, hpos⟩ := hx.1
  · obtain rfl | ⟨-, hpos⟩ := hy.1
    · rfl
    · exact absurd (hy.le hx (fun a ha => (h a).2 ha) hpos) fun hle => not_lt_of_le hle hpos
  · have hle := hx.le hy (fun a ha => (h a).1 ha) hpos
    have hpos' := Ordered.lt_of_lt_of_le hpos hle
    exact Normal.eq_of_le_of_le hpos hle (hy.le hx (fun a ha => (h a).2 ha) hpos')

theorem foldl_max_perm [Normal α] {xs ys : List α} (h : xs.Perm ys) : xs.foldl max 0 = ys.foldl max (0 : α) :=
  (isLargest_foldl_max xs).eq (isLargest_foldl_max ys) fun _ => h.mem_iff

/-! ## Sums -/

section Sums

variable [Rounded α]

open Ordered Rounded

theorem add_nonneg {x y : α} (hx : 0 ≤ x) (hy : 0 ≤ y) : 0 ≤ x + y := le_trans hx (le_add_right hx hy)

/-- Adding more numbers to a larger one gives no less. -/
theorem foldl_add_le {xs ys : List α} (h : xs.Sublist ys) (pos : ∀ y ∈ ys, (0 : α) ≤ y) {a b : α} (ha : 0 ≤ a)
    (hab : a ≤ b) : xs.foldl (· + ·) a ≤ ys.foldl (· + ·) b := by
  induction h generalizing a b with
  | slnil => exact hab
  | cons y h ih =>
    obtain ⟨hy, pos⟩ := List.forall_mem_cons.1 pos
    exact ih pos ha (le_trans hab (le_add_right (le_trans ha hab) hy))
  | cons_cons y h ih =>
    obtain ⟨hy, pos⟩ := List.forall_mem_cons.1 pos
    exact ih pos (add_nonneg ha hy) (add_le_add_right ha hab hy)

theorem sum_le_foldl {xs ys : List α} (h : xs.Sublist ys) (pos : ∀ y ∈ ys, (0 : α) ≤ y) {b : α} (hb : 0 ≤ b) :
    sum xs ≤ ys.foldl (· + ·) b := by
  induction h generalizing b with
  | slnil => exact hb
  | cons y h ih =>
    obtain ⟨hy, pos⟩ := List.forall_mem_cons.1 pos
    exact ih pos (add_nonneg hb hy)
  | cons_cons y h ih =>
    obtain ⟨hy, pos⟩ := List.forall_mem_cons.1 pos
    exact foldl_add_le h pos hy (le_add_left hb hy)

/-- Leaving out summands that are not negative makes no sum larger. -/
theorem sum_le_sum {xs ys : List α} (h : xs.Sublist ys) (pos : ∀ y ∈ ys, (0 : α) ≤ y) : sum xs ≤ sum ys := by
  cases h with
  | slnil => exact zero_le_zero
  | cons y h =>
    obtain ⟨hy, pos⟩ := List.forall_mem_cons.1 pos
    exact sum_le_foldl h pos hy
  | cons_cons y h =>
    obtain ⟨hy, pos⟩ := List.forall_mem_cons.1 pos
    exact foldl_add_le h pos hy (right_number hy)

theorem sum_nonneg {xs : List α} (pos : ∀ x ∈ xs, (0 : α) ≤ x) : 0 ≤ sum xs := sum_le_sum (List.nil_sublist xs) pos

end Sums

end Scalar
end ToleranceClustering
