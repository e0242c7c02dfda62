import Mathlib
import ToleranceClustering.Proofs.Binary64.Rounding

/-!
# What a binary64 number stands for

Numbers of the format are unpacked into a sign, a mantissa and an exponent. `value` reads an unpacked number as an
extended real, and the order of the format is the order of the values, except that what is no number compares with
nothing (`le_iff`, `lt_iff`).
-/

namespace ToleranceClustering.Binary64

open Float.Model (Format UnpackedFloat)

/-! ## Unpacked numbers -/

/-- An unpacked number as the format has it. -/
def Proper : UnpackedFloat → Prop
  | .finite _ m e _ => Canonical m e ∧ e ≤ 971
  | _ => True

theorem toNat_append_one (m : BitVec 52) : (1#1 ++ m).toNat = 2 ^ 52 + m.toNat := by
  rw [BitVec.toNat_append, ← Nat.shiftLeft_add_eq_or_of_lt m.isLt]
  rfl

/-- What is unpacked is as the format has it. -/
theorem proper_unpack (b : BitVec 64) : Proper (UnpackedFloat.unpack Format.binary64 b) := by
  unfold UnpackedFloat.unpack
  extract_lets mantissa exponent place sign
  have hm : mantissa.toNat < 2 ^ 52 := mantissa.isLt
  have he : exponent.toNat < 2 ^ 11 := exponent.isLt
  have hp : place = (exponent.toNat : ℤ) - 1075 := rfl
  split
  · split <;> exact trivial
  · rename_i htop
    have htop' : exponent.toNat ≠ 2047 := fun h => htop (BitVec.eq_of_toNat_eq h)
    split
    · rename_i hzero
      have hz : exponent.toNat = 0 := by rw [hzero]; rfl
      split
      · exact trivial
      · refine ⟨⟨?_, ?_, Or.inr ?_⟩, ?_⟩ <;> omega
    · rename_i hzero
      have hz : exponent.toNat ≠ 0 := fun h => hzero (BitVec.eq_of_toNat_eq h)
      have hmant := toNat_append_one mantissa
      refine ⟨⟨?_, ?_, Or.inl ?_⟩, ?_⟩ <;> omega

/-! ## The order -/

/-- Of two canonical numbers that are not negative, the one with the larger exponent is the larger one. -/
theorem magnitude_lt_of_lt {m n : ℕ} {e f : ℤ} (hm : Canonical m e) (hn : Canonical n f) (h : e < f) :
    (m * 2 ^ e : ℝ) < n * 2 ^ f := by
  have hn' : 2 ^ 52 ≤ n := hn.2.2.resolve_right (by have := hm.2.1; omega)
  have hlo : (m : ℝ) < 2 ^ (53 : ℤ) := by exact_mod_cast hm.1
  have hhi : (2 : ℝ) ^ (52 : ℤ) ≤ n := by exact_mod_cast hn'
  calc (m * 2 ^ e : ℝ) < 2 ^ (53 : ℤ) * 2 ^ e := mul_lt_mul_of_pos_right hlo (two_zpow_pos e)
    _ = 2 ^ (53 + e) := (zpow_add₀ (by norm_num) _ _).symm
    _ ≤ 2 ^ (52 + f) := zpow_le_zpow_right₀ (by norm_num) (by omega)
    _ = 2 ^ (52 : ℤ) * 2 ^ f := zpow_add₀ (by norm_num) _ _
    _ ≤ n * 2 ^ f := mul_le_mul_of_nonneg_right hhi (two_zpow_pos f).le

/-- Exponents first and mantissas second compare canonical numbers. -/
theorem compare_magnitudes {m n : ℕ} {e f : ℤ} (hm : Canonical m e) (hn : Canonical n f) :
    (compare e f).then (compare m n) = compare (m * 2 ^ e : ℝ) (n * 2 ^ f) := by
  rcases lt_trichotomy e f with h | h | h
  · rw [compare_lt_iff_lt.2 h, compare_lt_iff_lt.2 (magnitude_lt_of_lt hm hn h)]
    rfl
  · subst h
    rw [compare_eq_iff_eq.2 rfl, Ordering.eq_then]
    rcases lt_trichotomy m n with h | h | h
    · have hr : (m : ℝ) < n := by exact_mod_cast h
      rw [compare_lt_iff_lt.2 h, compare_lt_iff_lt.2 (mul_lt_mul_of_pos_right hr (two_zpow_pos e))]
    · subst h
      rw [compare_eq_iff_eq.2 rfl, compare_eq_iff_eq.2 rfl]
    · have hr : (n : ℝ) < m := by exact_mod_cast h
      rw [compare_gt_iff_gt.2 h, compare_gt_iff_gt.2 (mul_lt_mul_of_pos_right hr (two_zpow_pos e))]
  · rw [compare_gt_iff_gt.2 h, compare_gt_iff_gt.2 (magnitude_lt_of_lt hn hm h)]
    rfl

theorem magnitude_pos {m : ℕ} (hm : 0 < m) (e : ℤ) : (0 : ℝ) < m * 2 ^ e :=
  mul_pos (by exact_mod_cast hm) (two_zpow_pos e)

theorem value_finite_positive {m : ℕ} {e : ℤ} (hm : 0 < m) :
    value (.finite .positive m e hm) = ((m * 2 ^ e : ℝ) : EReal) := rfl

theorem value_finite_negative {m : ℕ} {e : ℤ} (hm : 0 < m) :
    value (.finite .negative m e hm) = ((-(m * 2 ^ e) : ℝ) : EReal) := rfl

/-- Only the positive infinity has no number above it. -/
theorem value_lt_top {u : UnpackedFloat} (h : u ≠ .infinity .positive) : value u < ⊤ := by
  cases u with
  | infinity s =>
    cases s with
    | negative => exact bot_lt_top
    | positive => exact absurd rfl h
  | notANumber => exact EReal.coe_lt_top 0
  | zero s => exact EReal.coe_lt_top 0
  | finite s m e hm => cases s <;> exact EReal.coe_lt_top _

/-- Only the negative infinity has no number below it. -/
theorem bot_lt_value {u : UnpackedFloat} (h : u ≠ .infinity .negative) : ⊥ < value u := by
  cases u with
  | infinity s =>
    cases s with
    | negative => exact absurd rfl h
    | positive => exact bot_lt_top
  | notANumber => exact EReal.bot_lt_coe 0
  | zero s => exact EReal.bot_lt_coe 0
  | finite s m e hm => cases s <;> exact EReal.bot_lt_coe _

theorem compare_coe (x y : ℝ) : compare (x : EReal) (y : EReal) = compare x y := by
  rcases lt_trichotomy x y with h | h | h
  · rw [compare_lt_iff_lt.2 h, compare_lt_iff_lt.2 (EReal.coe_lt_coe_iff.2 h)]
  · rw [compare_eq_iff_eq.2 h, compare_eq_iff_eq.2 (congrArg _ h)]
  · rw [compare_gt_iff_gt.2 h, compare_gt_iff_gt.2 (EReal.coe_lt_coe_iff.2 h)]

theorem compare_neg_neg (x y : ℝ) : compare (-x) (-y) = (compare x y).swap := by
  rcases lt_trichotomy x y with h | h | h
  · rw [compare_lt_iff_lt.2 h, compare_gt_iff_gt.2 (neg_lt_neg h)]
    rfl
  · rw [compare_eq_iff_eq.2 h, compare_eq_iff_eq.2 (congrArg _ h)]
    rfl
  · rw [compare_gt_iff_gt.2 h, compare_lt_iff_lt.2 (neg_lt_neg h)]
    rfl

/-- The comparison of the format is that of the values, where both are numbers. -/
theorem compare_eq {u w : UnpackedFloat} (hu : Proper u) (hw : Proper w) (nu : u ≠ .notANumber)
    (nw : w ≠ .notANumber) : u.compare w = some (compare (value u) (value w)) := by
  have lt {x y : EReal} (h : x < y) : some Ordering.lt = some (compare x y) :=
    congrArg some (compare_lt_iff_lt.2 h).symm
  have gt {x y : EReal} (h : y < x) : some Ordering.gt = some (compare x y) :=
    congrArg some (compare_gt_iff_gt.2 h).symm
  have same {x : EReal} : some Ordering.eq = some (compare x x) :=
    congrArg some (compare_eq_iff_eq.2 rfl).symm
  have below {m : ℕ} (hm : 0 < m) (e : ℤ) : ((-(m * 2 ^ e) : ℝ) : EReal) < 0 := by
    exact_mod_cast neg_neg_of_pos (magnitude_pos hm e)
  have above {m : ℕ} (hm : 0 < m) (e : ℤ) : (0 : EReal) < ((m * 2 ^ e : ℝ) : EReal) := by
    exact_mod_cast magnitude_pos hm e
  cases u with
  | notANumber => exact absurd rfl nu
  | infinity s =>
    cases w with
    | notANumber => exact absurd rfl nw
    | infinity t =>
      cases s <;> cases t
      · exact same
      · exact lt bot_lt_top
      · exact gt bot_lt_top
      · exact same
    | zero t =>
      cases s
      · exact lt (bot_lt_value (by simp))
      · exact gt (value_lt_top (by simp))
    | finite t n f hn =>
      cases s
      · exact lt (bot_lt_value (by simp))
      · exact gt (value_lt_top (by simp))
  | zero s =>
    cases w with
    | notANumber => exact absurd rfl nw
    | infinity t =>
      cases t
      · exact gt (bot_lt_value (by simp))
      · exact lt (value_lt_top (by simp))
    | zero t => exact same
    | finite t n f hn =>
      cases t
      · exact gt (below hn f)
      · exact lt (above hn f)
  | finite s m e hm =>
    cases w with
    | notANumber => exact absurd rfl nw
    | infinity t =>
      cases t
      · cases s <;> exact gt (bot_lt_value (by simp))
      · cases s <;> exact lt (value_lt_top (by simp))
    | zero t =>
      cases s
      · exact lt (below hm e)
      · exact gt (above hm e)
    | finite t n f hn =>
      cases s <;> cases t
      · rw [value_finite_negative, value_finite_negative, compare_coe, compare_neg_neg,
          ← compare_magnitudes hu.1 hw.1]
        rfl
      · exact lt ((below hm e).trans (above hn f))
      · exact gt ((below hn f).trans (above hm e))
      · rw [value_finite_positive, value_finite_positive, compare_coe, ← compare_magnitudes hu.1 hw.1]
        rfl

theorem compare_eq_none {u w : UnpackedFloat} (h : u = .notANumber ∨ w = .notANumber) : u.compare w = none := by
  rcases h with rfl | rfl
  · rfl
  · cases u with
    | infinity s => cases s <;> rfl
    | notANumber => rfl
    | zero s => rfl
    | finite s m e hm => cases s <;> rfl

/-! ## Numbers of the format -/

/-- A number of the format, unpacked. -/
def unpacked (x : Float) : UnpackedFloat := x.toModel.unpack

/-- Whether it is a number at all. -/
def IsNumber (x : Float) : Prop := unpacked x ≠ .notANumber

/-- What it stands for. -/
noncomputable def worth (x : Float) : EReal := value (unpacked x)

theorem proper_unpacked (x : Float) : Proper (unpacked x) := proper_unpack _

/-- Numbers are ordered as what they stand for; what is no number compares with nothing. -/
theorem le_iff {x y : Float} : x ≤ y ↔ IsNumber x ∧ IsNumber y ∧ worth x ≤ worth y := by
  have hle : x ≤ y ↔ (unpacked x).le (unpacked y) = true := by
    show Float.le x y = true ↔ _
    exact decide_eq_true_iff
  rw [hle, UnpackedFloat.le]
  by_cases hx : IsNumber x
  · by_cases hy : IsNumber y
    · rw [compare_eq (proper_unpacked x) (proper_unpacked y) hx hy, Option.any_some, Ordering.isLE_iff_ne_gt,
        ← ne_eq, compare_le_iff_le]
      exact ⟨fun h => ⟨hx, hy, h⟩, fun h => h.2.2⟩
    · rw [compare_eq_none (Or.inr (not_not.1 hy))]
      exact iff_of_false (by simp) fun h => hy h.2.1
  · rw [compare_eq_none (Or.inl (not_not.1 hx))]
    exact iff_of_false (by simp) fun h => hx h.1

theorem lt_iff {x y : Float} : x < y ↔ IsNumber x ∧ IsNumber y ∧ worth x < worth y := by
  have hlt : x < y ↔ (unpacked x).lt (unpacked y) = true := by
    show Float.lt x y = true ↔ _
    exact decide_eq_true_iff
  rw [hlt, UnpackedFloat.lt]
  by_cases hx : IsNumber x
  · by_cases hy : IsNumber y
    · rw [compare_eq (proper_unpacked x) (proper_unpacked y) hx hy, beq_iff_eq, Option.some.injEq,
        compare_lt_iff_lt]
      exact ⟨fun h => ⟨hx, hy, h⟩, fun h => h.2.2⟩
    · rw [compare_eq_none (Or.inr (not_not.1 hy))]
      exact iff_of_false (by simp) fun h => hy h.2.1
  · rw [compare_eq_none (Or.inl (not_not.1 hx))]
    exact iff_of_false (by simp) fun h => hx h.1

end ToleranceClustering.Binary64
