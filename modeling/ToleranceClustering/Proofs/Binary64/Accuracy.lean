import Mathlib
import ToleranceClustering.Proofs.Binary64.Value

/-!
# Rounding a mantissa

The operations of the format hand on a mantissa, an exponent and a note of what was cut off below the mantissa. `Reads`
says what such a note tells of the exact number. It survives every shift to the right, so that rounding the shifted
mantissa rounds the exact number (`roundWithAccuracy_eq`, `round_eq`).
-/

namespace ToleranceClustering.Binary64

open Float.Model (Format UnpackedFloat totalExponent)
open Float.Model.UnpackedFloat (Accuracy ExtendedMantissa Sign)

/-! ## What was cut off -/

namespace Reads

variable {x : ℝ} {m : ℕ} {a : Accuracy}

theorem le (h : Reads x m a) : (m : ℝ) ≤ x := by
  cases a with
  | exact => exact ge_of_eq h
  | inexact o => exact h.1.le

theorem lt (h : Reads x m a) : x < m + 1 := by
  cases a with
  | exact =>
    have hx : x = m := h
    rw [hx]
    exact lt_add_one _
  | inexact o => exact h.2.1

theorem floor (h : Reads x m a) : ⌊x⌋₊ = m :=
  (Nat.floor_eq_iff (le_trans (Nat.cast_nonneg m) h.le)).2 ⟨h.le, h.lt⟩

/-- Rounding by the note rounds the number. -/
theorem roundToNearestEven (h : Reads x m a) : a.roundToNearestEven m = nearest x := by
  unfold nearest
  rw [h.floor]
  cases a with
  | exact =>
    have hx : x = m := h
    rw [if_pos (by rw [hx]; linarith)]
    rfl
  | inexact o =>
    obtain ⟨-, -, ho⟩ := h
    cases o with
    | lt =>
      rw [if_pos (compare_lt_iff_lt.1 ho)]
      rfl
    | eq =>
      have hx := compare_eq_iff_eq.1 ho
      rw [if_neg hx.not_lt, if_neg hx.not_gt]
      rfl
    | gt =>
      have hx := compare_gt_iff_gt.1 ho
      rw [if_neg (not_lt_of_gt hx), if_pos hx]
      rfl

end Reads

/-- The numbers that a mantissa with two bits below it stands for. -/
def Holds (x : ℝ) (em : ExtendedMantissa) : Prop := Reads x em.mantissa em.accuracy

theorem holds_ofMantissaAndAccuracy {x : ℝ} {m : ℕ} {a : Accuracy} (h : Reads x m a) :
    Holds x (ExtendedMantissa.ofMantissaAndAccuracy m a) := by
  cases a with
  | exact => exact h
  | inexact o => cases o <;> exact h

/-- A shift to the right halves the number: an odd mantissa leaves a half, and what was cut off before only matters as
being there. -/
theorem Holds.shiftRightOne {x : ℝ} {em : ExtendedMantissa} (h : Holds x em) : Holds (x / 2) em.shiftRightOne := by
  obtain ⟨m, r, t⟩ := em
  have hexact : r = false → t = false → x = m := by
    rintro rfl rfl
    exact h
  have hinexact : (r || t) = true → (m : ℝ) < x := by
    intro hrt
    cases r <;> cases t
    · cases hrt
    all_goals exact h.1
  have hlt : x < m + 1 := Reads.lt h
  rcases Nat.mod_two_eq_zero_or_one m with hm | hm
  · have hk : (m : ℝ) = 2 * (m / 2 : ℕ) := by
      have : m = 2 * (m / 2) := by omega
      exact_mod_cast this
    by_cases hrt : (r || t) = true
    · have hlow := hinexact hrt
      have he : (ExtendedMantissa.mk m r t).shiftRightOne = ⟨m / 2, false, true⟩ := by
        simp [ExtendedMantissa.shiftRightOne, hm, hrt]
      rw [he]
      refine ⟨?_, ?_, compare_lt_iff_lt.2 ?_⟩ <;> linarith
    · obtain ⟨rfl, rfl⟩ : r = false ∧ t = false := by simpa using hrt
      have he : (ExtendedMantissa.mk m false false).shiftRightOne = ⟨m / 2, false, false⟩ := by
        simp [ExtendedMantissa.shiftRightOne, hm]
      rw [he]
      show x / 2 = (m / 2 : ℕ)
      have := hexact rfl rfl
      linarith
  · have hk : (m : ℝ) = 2 * (m / 2 : ℕ) + 1 := by
      have : m = 2 * (m / 2) + 1 := by omega
      exact_mod_cast this
    by_cases hrt : (r || t) = true
    · have hlow := hinexact hrt
      have he : (ExtendedMantissa.mk m r t).shiftRightOne = ⟨m / 2, true, true⟩ := by
        simp [ExtendedMantissa.shiftRightOne, hm, hrt]
      rw [he]
      refine ⟨?_, ?_, compare_gt_iff_gt.2 ?_⟩ <;> linarith
    · obtain ⟨rfl, rfl⟩ : r = false ∧ t = false := by simpa using hrt
      have he : (ExtendedMantissa.mk m false false).shiftRightOne = ⟨m / 2, true, false⟩ := by
        simp [ExtendedMantissa.shiftRightOne, hm]
      have hx := hexact rfl rfl
      rw [he]
      refine ⟨?_, ?_, compare_eq_iff_eq.2 ?_⟩ <;> linarith

theorem Holds.shiftRight {x : ℝ} {em : ExtendedMantissa} (h : Holds x em) (n : ℕ) : Holds (x / 2 ^ n) (em >>> n) := by
  induction n with
  | zero =>
    have hz : em >>> 0 = em := rfl
    rw [hz, pow_zero, div_one]
    exact h
  | succ n ih =>
    have hs : em >>> (n + 1) = (em >>> n).shiftRightOne := rfl
    rw [hs, pow_succ, ← div_div]
    exact ih.shiftRightOne

/-! ## Rounding -/

/-- The exponent that the format wants is the scale of the number. -/
theorem targetExponent_eq (m : ℕ) (e : ℤ) :
    Format.binary64.targetExponent (totalExponent m e) = max (m.log2 + e - 52) (-1074) := by
  have h : Format.binary64.targetExponent (totalExponent m e) = max ((m.log2 + 1 + e : ℤ) - (53 : ℕ)) (-1074) := rfl
  rw [h]
  omega

/-- Whether a mantissa has bits enough to be rounded: those of the format, or down to the least exponent. -/
def Ample (m : ℕ) (e : ℤ) : Prop := 52 ≤ m.log2 ∨ e ≤ -1074

theorem Ample.le_targetExponent {m : ℕ} {e : ℤ} (h : Ample m e) :
    e ≤ Format.binary64.targetExponent (totalExponent m e) := by
  rw [targetExponent_eq]
  rcases h with h | h <;> omega

theorem targetExponent_eq_scale {v : ℝ} {m : ℕ} {e : ℤ} {a : Accuracy} (hv : 0 < v) (hr : Reads (v / 2 ^ e) m a)
    (ha : Ample m e) : Format.binary64.targetExponent (totalExponent m e) = scale v := by
  rw [targetExponent_eq]
  unfold scale
  rcases Nat.eq_zero_or_pos m with rfl | hm
  · -- Nothing is left of the number above the least exponent.
    have he : e ≤ -1074 := ha.resolve_left (by decide)
    have hlt : v < 2 ^ e := by simpa using (div_lt_iff₀ (two_zpow_pos e)).1 hr.lt
    have hlog := (Int.lt_zpow_iff_log_lt (b := 2) (by decide) hv).1 (by exact_mod_cast hlt)
    rw [Nat.log2_zero]
    omega
  · have hlog := log_mul_zpow hm.ne' hr.le hr.lt e
    rw [div_mul_cancel₀ v (two_zpow_pos e).ne'] at hlog
    rw [hlog]

theorem shiftToExponent_eq (m : ℕ) (e : ℤ) (a : Accuracy) (t : ℤ) :
    UnpackedFloat.shiftToExponent m e a t =
      (ExtendedMantissa.ofMantissaAndAccuracy m a >>> (t - e).toNat, e + (t - e).toNat) := rfl

/-- A shift to a larger exponent reads the same number at that exponent. -/
theorem shiftToExponent_spec {v : ℝ} {m : ℕ} {e t : ℤ} {a : Accuracy} (hr : Reads (v / 2 ^ e) m a) (h : e ≤ t) :
    Holds (v / 2 ^ t) (UnpackedFloat.shiftToExponent m e a t).1 ∧ (UnpackedFloat.shiftToExponent m e a t).2 = t := by
  obtain ⟨n, rfl⟩ : ∃ n : ℕ, t = e + n := ⟨(t - e).toNat, by omega⟩
  have hn : (e + n - e).toNat = n := by omega
  rw [shiftToExponent_eq, hn]
  refine ⟨?_, rfl⟩
  have hs := (holds_ofMantissaAndAccuracy hr).shiftRight n
  rw [div_div, ← zpow_natCast, ← zpow_add₀ (by norm_num : (2 : ℝ) ≠ 0)] at hs
  exact hs

/-- The number with a sign, a mantissa and an exponent. -/
def assemble (s : Sign) (m : ℕ) (e : ℤ) : UnpackedFloat :=
  if h : m = 0 then .zero s else .finite s m e (Nat.pos_of_ne_zero h)

/-- The second shift of a rounding, which only has to undo a carry into a 54th bit. -/
theorem shiftToTargetExponent_carry {n : ℕ} {e : ℤ} (hn : n ≤ 2 ^ 53) (he : -1074 ≤ e) (hc : 2 ^ 52 ≤ n ∨ e = -1074) :
    ∃ k f, Canonical k f ∧ (k * 2 ^ f : ℝ) = n * 2 ^ e ∧
      (UnpackedFloat.shiftToTargetExponent Format.binary64 n e .exact).1.mantissa = k ∧
      (UnpackedFloat.shiftToTargetExponent Format.binary64 n e .exact).2 = f := by
  rw [UnpackedFloat.shiftToTargetExponent, targetExponent_eq, shiftToExponent_eq]
  rcases hn.eq_or_lt with rfl | hlt
  · have hs : (max (((2 ^ 53 : ℕ).log2 : ℤ) + e - 52) (-1074) - e).toNat = 1 := by
      rw [Nat.log2_two_pow]
      omega
    rw [hs]
    refine ⟨2 ^ 52, e + 1, ⟨by decide, by omega, Or.inl (Nat.le_refl _)⟩, ?_, rfl, rfl⟩
    rw [zpow_add₀ (by norm_num : (2 : ℝ) ≠ 0)]
    push_cast
    ring
  · have hl : n.log2 < 53 := by
      rcases Nat.eq_zero_or_pos n with rfl | hpos
      · decide
      · exact (Nat.log2_lt hpos.ne').2 hlt
    have hs : (max ((n.log2 : ℤ) + e - 52) (-1074) - e).toNat = 0 := by omega
    rw [hs]
    exact ⟨n, e, ⟨hlt, he, hc⟩, rfl, rfl, Int.add_zero e⟩

/-- Rounding a mantissa, with a note of what was cut off below it, rounds the number. -/
theorem roundWithAccuracy_eq (s : Sign) {v : ℝ} {m : ℕ} {e : ℤ} {a : Accuracy} (hv : 0 < v)
    (hr : Reads (v / 2 ^ e) m a) (ha : Ample m e) :
    ∃ k f, Canonical k f ∧ (k * 2 ^ f : ℝ) = grid v ∧
      UnpackedFloat.roundWithAccuracy Format.binary64 s m e a = assemble s k f := by
  have hle := ha.le_targetExponent
  rw [targetExponent_eq_scale hv hr ha] at hle
  obtain ⟨hh, hs⟩ := shiftToExponent_spec hr hle
  have hround : (UnpackedFloat.shiftToExponent m e a (scale v)).1.roundedMantissa = nearest (v / 2 ^ scale v) :=
    hh.roundToNearestEven
  have hfull : 2 ^ 52 ≤ nearest (v / 2 ^ scale v) ∨ scale v = -1074 := by
    rcases (le_max_right (Int.log 2 v - 52) (-1074)).eq_or_lt with h | h
    · exact Or.inr h.symm
    · exact Or.inl (le_nearest_scaled hv h)
  obtain ⟨k, f, hk, hval, hm, hf⟩ := shiftToTargetExponent_carry (nearest_scaled_le v) (le_max_right _ _) hfull
  refine ⟨k, f, hk, hval, ?_⟩
  subst hm hf
  unfold UnpackedFloat.roundWithAccuracy
  rw [UnpackedFloat.shiftToTargetExponent, targetExponent_eq_scale hv hr ha]
  simp only [hround, hs]
  rfl

theorem shiftLeft_pos {m : ℕ} (hm : 0 < m) (n : ℕ) : 0 < m <<< n := by
  rw [Nat.shiftLeft_eq]
  positivity

theorem log2_shiftLeft {m : ℕ} (hm : 0 < m) (n : ℕ) : (m <<< n).log2 = m.log2 + n := by
  refine (Nat.log2_eq_iff (shiftLeft_pos hm n).ne').2 ⟨?_, ?_⟩
  · rw [Nat.shiftLeft_eq, pow_add]
    exact Nat.mul_le_mul_right _ (Nat.log2_self_le hm.ne')
  · rw [Nat.shiftLeft_eq, Nat.add_right_comm, pow_add]
    exact Nat.mul_lt_mul_of_pos_right Nat.lt_log2_self (by positivity)

/-- Widening a mantissa to the left lowers the exponent. -/
theorem shiftLeft_mul_zpow (m n : ℕ) (e : ℤ) : ((m <<< n : ℕ) : ℝ) * 2 ^ (e - n) = m * 2 ^ e := by
  rw [Nat.shiftLeft_eq, zpow_sub₀ (by norm_num : (2 : ℝ) ≠ 0), zpow_natCast]
  push_cast
  field_simp

/-- Rounding a mantissa with no bits cut off, after it was widened where it was too short. -/
theorem round_eq (s : Sign) {m : ℕ} (hm : 0 < m) (e : ℤ) :
    ∃ k f, Canonical k f ∧ (k * 2 ^ f : ℝ) = grid (m * 2 ^ e) ∧
      UnpackedFloat.round Format.binary64 s m e = assemble s k f := by
  rw [UnpackedFloat.round, targetExponent_eq]
  have hval (n : ℕ) : Reads ((m * 2 ^ e : ℝ) / 2 ^ (e - n)) (m <<< n) .exact := by
    show (m * 2 ^ e : ℝ) / 2 ^ (e - n) = (m <<< n : ℕ)
    rw [← shiftLeft_mul_zpow m n e, mul_div_cancel_right₀ _ (two_zpow_pos _).ne']
  refine roundWithAccuracy_eq s (magnitude_pos hm e) (hval _) ?_
  unfold Ample
  rw [log2_shiftLeft hm]
  omega

end ToleranceClustering.Binary64
