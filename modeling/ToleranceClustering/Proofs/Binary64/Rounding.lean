import Mathlib

/-!
# Rounding to binary64

What unpacked numbers stand for, and how a number that is not negative is rounded. Before overflow is taken into account
(`cap`), `grid v` is the nearest of the numbers `m * 2 ^ e` with at most 53 bits in `m` and `-1074 ≤ e`, a tie going to
the even mantissa. It keeps the order (`grid_mono`) and leaves what is representable alone (`grid_of_canonical`).
-/

namespace ToleranceClustering.Binary64

open Float.Model (UnpackedFloat)
open Float.Model.UnpackedFloat (Accuracy)

/-! ## What is rounded -/

/-- What an unpacked number stands for; what is no number counts as zero. -/
noncomputable def value : UnpackedFloat → EReal
  | .infinity .positive => ⊤
  | .infinity .negative => ⊥
  | .notANumber => 0
  | .zero _ => 0
  | .finite .positive m e _ => ((m * 2 ^ e : ℝ) : EReal)
  | .finite .negative m e _ => ((-(m * 2 ^ e) : ℝ) : EReal)

/-- What a mantissa and the note beside it tell of a number: the mantissa is the number itself, or its whole part, and
the note tells on which side of the middle to the next mantissa the number lies. -/
def Reads (x : ℝ) (m : ℕ) : Accuracy → Prop
  | .exact => x = m
  | .inexact o => (m : ℝ) < x ∧ x < m + 1 ∧ compare x (m + 1 / 2) = o

/-! ## The rounding -/

/-- The nearest natural number, of two equally near the even one. -/
noncomputable def nearest (x : ℝ) : ℕ :=
  if x < ⌊x⌋₊ + 1 / 2 then ⌊x⌋₊ else if ⌊x⌋₊ + 1 / 2 < x then ⌊x⌋₊ + 1 else ⌊x⌋₊ + ⌊x⌋₊ % 2

theorem floor_le_nearest (x : ℝ) : ⌊x⌋₊ ≤ nearest x := by
  unfold nearest
  split
  · exact Nat.le_refl _
  · split <;> omega

theorem nearest_le_floor (x : ℝ) : nearest x ≤ ⌊x⌋₊ + 1 := by
  unfold nearest
  split
  · omega
  · split <;> omega

/-- Rounding to a natural number keeps the order. -/
theorem nearest_mono {x y : ℝ} (h : x ≤ y) : nearest x ≤ nearest y := by
  rcases Nat.lt_or_ge ⌊x⌋₊ ⌊y⌋₊ with hf | hf
  · exact (nearest_le_floor x).trans (Nat.le_trans hf (floor_le_nearest y))
  · have he : ⌊y⌋₊ = ⌊x⌋₊ := Nat.le_antisymm hf (Nat.floor_mono h)
    unfold nearest
    rw [he]
    by_cases h₁ : x < ⌊x⌋₊ + 1 / 2
    · rw [if_pos h₁]
      split
      · exact Nat.le_refl _
      · split <;> omega
    · have h₂ : ¬y < ⌊x⌋₊ + 1 / 2 := fun hy => h₁ (lt_of_le_of_lt h hy)
      rw [if_neg h₁, if_neg h₂]
      by_cases h₃ : (⌊x⌋₊ : ℝ) + 1 / 2 < x
      · rw [if_pos h₃, if_pos (lt_of_lt_of_le h₃ h)]
      · rw [if_neg h₃]
        split <;> omega

/-- A natural number is its own rounding. -/
theorem nearest_natCast (n : ℕ) : nearest (n : ℝ) = n := by
  unfold nearest
  rw [Nat.floor_natCast, if_pos (by linarith)]

/-- The exponent of the last bit kept of a number: 52 places below its first bit, but not below the least exponent. -/
noncomputable def scale (v : ℝ) : ℤ := max (Int.log 2 v - 52) (-1074)

/-- The rounding of a number that is not negative, before overflow. -/
noncomputable def grid (v : ℝ) : ℝ := nearest (v / 2 ^ scale v) * 2 ^ scale v

/-- What a rounded number is worth when it is cut off at the largest number. -/
noncomputable def cap (w : ℝ) : EReal := if w < 2 ^ 1024 then (w : EReal) else ⊤

theorem scale_le_scale {v w : ℝ} (hv : 0 < v) (h : v ≤ w) : scale v ≤ scale w :=
  max_le_max_right (-1074) (Int.sub_le_sub_right (Int.log_mono_right hv h) 52)

theorem lt_pow_scale (v : ℝ) : v < 2 ^ (scale v + 53) := by
  have h := Int.lt_zpow_succ_log_self (b := 2) (by decide) v
  refine lt_of_lt_of_le h (zpow_le_zpow_right₀ (by norm_num) ?_)
  have := le_max_left (Int.log 2 v - 52) (-1074)
  unfold scale
  omega

theorem two_zpow_pos (e : ℤ) : (0 : ℝ) < 2 ^ e := zpow_pos (by norm_num) e

/-- The rounded mantissa has 53 bits, or is the next power of two. -/
theorem nearest_scaled_le (v : ℝ) : nearest (v / 2 ^ scale v) ≤ 2 ^ 53 := by
  have h : v / 2 ^ scale v ≤ ((2 ^ 53 : ℕ) : ℝ) := by
    rw [div_le_iff₀ (two_zpow_pos _)]
    have := (lt_pow_scale v).le
    rw [zpow_add₀ (by norm_num : (2 : ℝ) ≠ 0)] at this
    calc v ≤ 2 ^ scale v * 2 ^ (53 : ℤ) := this
      _ = ((2 ^ 53 : ℕ) : ℝ) * 2 ^ scale v := by norm_num [mul_comm]
  calc nearest (v / 2 ^ scale v) ≤ nearest ((2 ^ 53 : ℕ) : ℝ) := nearest_mono h
    _ = 2 ^ 53 := nearest_natCast _

/-- A number whose last bit is above the least exponent keeps 53 bits. -/
theorem le_nearest_scaled {v : ℝ} (hv : 0 < v) (hs : -1074 < scale v) : 2 ^ 52 ≤ nearest (v / 2 ^ scale v) := by
  have he : scale v = Int.log 2 v - 52 := by
    unfold scale at hs ⊢
    omega
  have h := Int.zpow_log_le_self (b := 2) (by decide) hv
  have h' : ((2 ^ 52 : ℕ) : ℝ) ≤ v / 2 ^ scale v := by
    rw [le_div_iff₀ (two_zpow_pos _)]
    calc ((2 ^ 52 : ℕ) : ℝ) * 2 ^ scale v = 2 ^ (52 : ℤ) * 2 ^ scale v := by norm_num
      _ = 2 ^ Int.log 2 v := by rw [← zpow_add₀ (by norm_num : (2 : ℝ) ≠ 0), he]; congr 1; omega
      _ ≤ v := h
  calc 2 ^ 52 = nearest ((2 ^ 52 : ℕ) : ℝ) := (nearest_natCast _).symm
    _ ≤ nearest (v / 2 ^ scale v) := nearest_mono h'

theorem grid_zero : grid 0 = 0 := by
  have h : nearest (0 : ℝ) = 0 := by simpa using nearest_natCast 0
  rw [grid, zero_div, h, Nat.cast_zero, zero_mul]

theorem grid_nonneg (v : ℝ) : 0 ≤ grid v := mul_nonneg (Nat.cast_nonneg _) (two_zpow_pos _).le

/-- Rounding keeps the order: on one scale because rounding to a natural number does, and from one scale to a larger one
because a power of two lies between. -/
theorem grid_mono {v w : ℝ} (hv : 0 ≤ v) (h : v ≤ w) : grid v ≤ grid w := by
  rcases hv.eq_or_lt with rfl | hv
  · rw [grid_zero]
    exact grid_nonneg w
  rcases (scale_le_scale hv h).eq_or_lt with he | hlt
  · unfold grid
    rw [he]
    have hm := nearest_mono ((div_le_div_iff_of_pos_right (two_zpow_pos (scale w))).2 h)
    exact mul_le_mul_of_nonneg_right (by exact_mod_cast hm) (two_zpow_pos _).le
  · have hlo : (nearest (v / 2 ^ scale v) : ℝ) ≤ 2 ^ (53 : ℤ) := by exact_mod_cast nearest_scaled_le v
    have hhi : (2 : ℝ) ^ (52 : ℤ) ≤ nearest (w / 2 ^ scale w) := by
      exact_mod_cast le_nearest_scaled (hv.trans_le h) (lt_of_le_of_lt (le_max_right _ _) hlt)
    calc grid v ≤ 2 ^ (53 : ℤ) * 2 ^ scale v := mul_le_mul_of_nonneg_right hlo (two_zpow_pos _).le
      _ = 2 ^ (53 + scale v) := (zpow_add₀ (by norm_num) _ _).symm
      _ ≤ 2 ^ (52 + scale w) := zpow_le_zpow_right₀ (by norm_num) (by omega)
      _ = 2 ^ (52 : ℤ) * 2 ^ scale w := zpow_add₀ (by norm_num) _ _
      _ ≤ grid w := mul_le_mul_of_nonneg_right hhi (two_zpow_pos _).le

/-- A mantissa and an exponent as the format has them: at most 53 bits, and all of them unless the exponent is the least.
-/
def Canonical (m : ℕ) (e : ℤ) : Prop := m < 2 ^ 53 ∧ -1074 ≤ e ∧ (2 ^ 52 ≤ m ∨ e = -1074)

/-- The exponent of the first bit of `m * 2 ^ e`. -/
theorem log_mul_zpow {x : ℝ} {m : ℕ} (hm : m ≠ 0) (hlo : (m : ℝ) ≤ x) (hhi : x < m + 1) (e : ℤ) :
    Int.log 2 (x * 2 ^ e) = m.log2 + e := by
  have hpos : (0 : ℝ) < m := by exact_mod_cast Nat.pos_of_ne_zero hm
  have hx : 0 < x * 2 ^ e := mul_pos (hpos.trans_le hlo) (two_zpow_pos e)
  have h₁ : (2 : ℝ) ^ (m.log2 + e : ℤ) ≤ x * 2 ^ e := by
    rw [zpow_add₀ (by norm_num : (2 : ℝ) ≠ 0), zpow_natCast]
    refine mul_le_mul_of_nonneg_right (le_trans ?_ hlo) (two_zpow_pos e).le
    exact_mod_cast Nat.log2_self_le hm
  have h₂ : x * 2 ^ e < (2 : ℝ) ^ (m.log2 + e + 1 : ℤ) := by
    have hn : m + 1 ≤ 2 ^ (m.log2 + 1) := Nat.lt_log2_self
    have hr : (m : ℝ) + 1 ≤ 2 ^ (m.log2 + 1) := by exact_mod_cast hn
    have hz : (m.log2 + e + 1 : ℤ) = ((m.log2 + 1 : ℕ) : ℤ) + e := by push_cast; ring
    rw [hz, zpow_add₀ (by norm_num : (2 : ℝ) ≠ 0), zpow_natCast]
    exact mul_lt_mul_of_pos_right (lt_of_lt_of_le hhi hr) (two_zpow_pos e)
  have l₁ := (Int.zpow_le_iff_le_log (b := 2) (by decide) hx).1 (by exact_mod_cast h₁)
  have l₂ := (Int.lt_zpow_iff_log_lt (b := 2) (by decide) hx).1 (by exact_mod_cast h₂)
  omega

/-- A representable number is its own rounding. -/
theorem grid_of_canonical {m : ℕ} {e : ℤ} (h : Canonical m e) : grid (m * 2 ^ e) = m * 2 ^ e := by
  obtain ⟨hm, he, hc⟩ := h
  by_cases h0 : m = 0
  · subst h0
    rw [Nat.cast_zero, zero_mul, grid_zero]
  have hs : scale (m * 2 ^ e) = e := by
    unfold scale
    rw [log_mul_zpow h0 (le_refl _) (by linarith) e]
    have hlt : m.log2 < 53 := (Nat.log2_lt h0).2 hm
    rcases hc with hc | hc
    · have : 52 ≤ m.log2 := (Nat.le_log2 h0).2 hc
      omega
    · omega
  rw [grid, hs, mul_div_assoc, div_self (two_zpow_pos e).ne', mul_one, nearest_natCast]

theorem grid_two_pow (j : ℕ) : grid (2 ^ j) = 2 ^ j := by
  have h : ((2 ^ 52 : ℕ) : ℝ) * 2 ^ ((j : ℤ) - 52) = 2 ^ j := by
    rw [zpow_sub₀ (by norm_num), zpow_natCast]
    push_cast
    field_simp
    norm_num
  rw [← h]
  exact grid_of_canonical ⟨by decide, by omega, Or.inl (Nat.le_refl _)⟩

end ToleranceClustering.Binary64
