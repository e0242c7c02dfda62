import Mathlib
import ToleranceClustering.Proofs.Binary64.Packing

/-!
# Arithmetic

What the operations make of numbers that are not negative: the exact result, rounded and cut off at the largest number
(`stands_add`, `stands_mul_finite`, `stands_div`, `stands_ofNat`).
-/

namespace ToleranceClustering.Binary64

open Float.Model (Format UnpackedFloat totalExponent)
open Float.Model.UnpackedFloat (Accuracy Sign)

/-! ## Addition -/

theorem add_exact (m n : ℕ) (e f : ℤ) :
    (((m <<< (e - min e f).toNat + n <<< (f - min e f).toNat : ℕ) : ℝ)) * 2 ^ min e f = m * 2 ^ e + n * 2 ^ f := by
  have h₁ := shiftLeft_mul_zpow m (e - min e f).toNat e
  have h₂ := shiftLeft_mul_zpow n (f - min e f).toNat f
  have he : e - ((e - min e f).toNat : ℤ) = min e f := by omega
  have hf : f - ((f - min e f).toNat : ℤ) = min e f := by omega
  rw [he] at h₁
  rw [hf] at h₂
  rw [Nat.cast_add, add_mul, h₁, h₂]

/-- Normalizing a positive mantissa rounds it. -/
theorem normalize_natCast {k : ℕ} (hk : 0 < k) (e : ℤ) (s : Sign) :
    UnpackedFloat.normalize Format.binary64 (k : ℤ) e s = UnpackedFloat.round Format.binary64 .positive k e := by
  have hc : compare (k : ℤ) 0 = .gt := compare_gt_iff_gt.2 (by exact_mod_cast hk)
  rw [UnpackedFloat.normalize, hc]
  rfl

theorem stands_add_finite {m n : ℕ} (hm : 0 < m) (hn : 0 < n) (e f : ℤ) :
    Stands (stored (UnpackedFloat.add Format.binary64 (.finite .positive m e hm) (.finite .positive n f hn)))
      (rounded ((m * 2 ^ e + n * 2 ^ f : ℝ) : EReal)) := by
  have hpos : 0 < m <<< (e - min e f).toNat + n <<< (f - min e f).toNat := Nat.add_pos_left (shiftLeft_pos hm _) _
  have hadd : UnpackedFloat.add Format.binary64 (.finite .positive m e hm) (.finite .positive n f hn) =
      UnpackedFloat.normalize Format.binary64 ((m <<< (e - min e f).toNat + n <<< (f - min e f).toNat : ℕ) : ℤ)
        (min e f) .positive := rfl
  rw [hadd, normalize_natCast hpos, ← add_exact]
  exact stands_of_rounding (round_eq .positive hpos (min e f))

/-- The sum of two numbers that are not negative. -/
theorem stands_add {u w : UnpackedFloat} {x y : EReal} (pu : Proper u) (pw : Proper w) (hu : Stands u x)
    (hw : Stands w y) (hx : 0 ≤ x) (hy : 0 ≤ y) :
    Stands (stored (UnpackedFloat.add Format.binary64 u w)) (rounded (x + y)) := by
  have infinite : Stands (stored (.infinity .positive)) (rounded ⊤) := by
    rw [stored_infinity, rounded_top]
    exact ⟨nofun, rfl⟩
  rcases cases_of_nonneg hu hx with ⟨rfl, rfl⟩ | ⟨s, rfl, rfl⟩ | ⟨m, e, hm, rfl, rfl⟩
  · rw [EReal.top_add_of_ne_bot (ne_of_gt (lt_of_lt_of_le (EReal.bot_lt_coe 0) hy))]
    rcases cases_of_nonneg hw hy with ⟨rfl, -⟩ | ⟨t, rfl, -⟩ | ⟨n, f, hn, rfl, -⟩ <;> exact infinite
  · rw [zero_add]
    rcases cases_of_nonneg hw hy with ⟨rfl, rfl⟩ | ⟨t, rfl, rfl⟩ | ⟨n, f, hn, rfl, rfl⟩
    · exact infinite
    · rw [rounded_zero, UnpackedFloat.add]
      split <;> (rw [stored_zero]; exact ⟨nofun, rfl⟩)
    · rw [rounded_of_stands pw hw hy]
      show Stands (stored (.finite .positive n f hn)) _
      rw [stored_finite pw]
      exact hw
  · rcases cases_of_nonneg hw hy with ⟨rfl, rfl⟩ | ⟨t, rfl, rfl⟩ | ⟨n, f, hn, rfl, rfl⟩
    · rw [EReal.coe_add_top]
      exact infinite
    · rw [add_zero, rounded_of_stands pu hu hx]
      show Stands (stored (.finite .positive m e hm)) _
      rw [stored_finite pu]
      exact hu
    · rw [← EReal.coe_add]
      exact stands_add_finite hm hn e f

/-! ## Multiplication -/

/-- The product of two positive numbers, of which one has bits enough. -/
theorem stands_mul_finite {m n : ℕ} (hm : 0 < m) (hn : 0 < n) (e f : ℤ) (ha : Ample (m * n) (e + f)) :
    Stands (stored (UnpackedFloat.mul Format.binary64 (.finite .positive m e hm) (.finite .positive n f hn)))
      (rounded (((m * 2 ^ e) * (n * 2 ^ f) : ℝ) : EReal)) := by
  have hv : ((m * 2 ^ e) * (n * 2 ^ f) : ℝ) = (m * n : ℕ) * 2 ^ (e + f) := by
    rw [zpow_add₀ (by norm_num : (2 : ℝ) ≠ 0)]
    push_cast
    ring
  have hr : Reads (((m * n : ℕ) * 2 ^ (e + f) : ℝ) / 2 ^ (e + f)) (m * n) .exact :=
    mul_div_cancel_right₀ _ (two_zpow_pos _).ne'
  rw [hv]
  exact stands_of_rounding (roundWithAccuracy_eq .positive (magnitude_pos (Nat.mul_pos hm hn) _) hr ha)

/-! ## Division -/

/-- A division with remainder reads the exact quotient. -/
theorem reads_div (a : ℕ) {n : ℕ} (hn : 0 < n) :
    Reads ((a : ℝ) / n) (a / n) (UnpackedFloat.accuracyOfFraction (a % n) n) := by
  have hn' : (0 : ℝ) < n := by exact_mod_cast hn
  have hmod : (a % n : ℕ) < (n : ℝ) := by exact_mod_cast Nat.mod_lt a hn
  have hx : (a : ℝ) / n = (a / n : ℕ) + (a % n : ℕ) / (n : ℝ) := by
    have ha : (a : ℝ) = n * (a / n : ℕ) + (a % n : ℕ) := by exact_mod_cast (Nat.div_add_mod a n).symm
    rw [div_eq_iff hn'.ne', add_mul, div_mul_cancel₀ _ hn'.ne', mul_comm _ (n : ℝ)]
    exact ha
  rw [hx]
  unfold UnpackedFloat.accuracyOfFraction
  rcases Nat.eq_zero_or_pos (a % n) with h0 | hpos
  · rw [if_pos h0, h0]
    show ((a / n : ℕ) : ℝ) + (0 : ℕ) / (n : ℝ) = (a / n : ℕ)
    rw [Nat.cast_zero, zero_div, add_zero]
  · rw [if_neg hpos.ne']
    have hfrac : (0 : ℝ) < (a % n : ℕ) / (n : ℝ) := div_pos (by exact_mod_cast hpos) hn'
    have hone : (a % n : ℕ) / (n : ℝ) < 1 := (div_lt_one hn').2 hmod
    refine ⟨by linarith, by linarith, ?_⟩
    rcases lt_trichotomy (2 * (a % n)) n with h | h | h
    · have hr : (2 * (a % n : ℕ) : ℝ) < n := by exact_mod_cast h
      have hhalf : (a % n : ℕ) / (n : ℝ) < 1 / 2 := by
        rw [div_lt_iff₀ hn']
        linarith
      rw [compare_lt_iff_lt.2 h, compare_lt_iff_lt.2 (by linarith)]
    · have hr : (2 * (a % n : ℕ) : ℝ) = n := by exact_mod_cast h
      have hhalf : (a % n : ℕ) / (n : ℝ) = 1 / 2 := by
        rw [div_eq_iff hn'.ne']
        linarith
      rw [compare_eq_iff_eq.2 h, compare_eq_iff_eq.2 (by rw [hhalf])]
    · have hr : (n : ℝ) < (2 * (a % n : ℕ) : ℝ) := by exact_mod_cast h
      have hhalf : 1 / 2 < (a % n : ℕ) / (n : ℝ) := by
        rw [lt_div_iff₀ hn']
        linarith
      rw [compare_gt_iff_gt.2 h, compare_gt_iff_gt.2 (by linarith)]

/-- The dividend is widened far enough for the quotient to have the bits of the format. -/
theorem ample_div {m n : ℕ} (hm : 0 < m) (hn : 0 < n) {d t : ℤ} (ht : t ≤ d)
    (hs : t ≤ m.log2 - n.log2 + d - 53 ∨ t ≤ -1074) : Ample ((m <<< (d - t).toNat) / n) t := by
  rcases hs with hs | hs
  · have hlog : n.log2 + 1 + 52 ≤ (m <<< (d - t).toNat).log2 := by
      rw [log2_shiftLeft hm]
      omega
    have hq : 2 ^ 52 ≤ m <<< (d - t).toNat / n := by
      rw [Nat.le_div_iff_mul_le hn, Nat.mul_comm]
      calc n * 2 ^ 52 ≤ 2 ^ (n.log2 + 1) * 2 ^ 52 := Nat.mul_le_mul_right _ Nat.lt_log2_self.le
        _ = 2 ^ (n.log2 + 1 + 52) := (Nat.pow_add 2 _ _).symm
        _ ≤ 2 ^ (m <<< (d - t).toNat).log2 := Nat.pow_le_pow_right (by decide) hlog
        _ ≤ m <<< (d - t).toNat := Nat.log2_self_le (shiftLeft_pos hm _).ne'
    exact Or.inl ((Nat.le_log2 (by omega)).2 hq)
  · exact Or.inr hs

theorem stands_div_finite {m n : ℕ} (hm : 0 < m) (hn : 0 < n) (e f : ℤ) :
    Stands (stored (UnpackedFloat.div Format.binary64 (.finite .positive m e hm) (.finite .positive n f hn)))
      (rounded (((m * 2 ^ e) / (n * 2 ^ f) : ℝ) : EReal)) := by
  obtain ⟨t, ht⟩ : ∃ t : ℤ, t = min (e - f) (max ((m.log2 + 1 + e) - (n.log2 + 1 + f) - 53) (-1074)) := ⟨_, rfl⟩
  have hdiv : UnpackedFloat.div Format.binary64 (.finite .positive m e hm) (.finite .positive n f hn) =
      UnpackedFloat.roundWithAccuracy Format.binary64 .positive (m <<< (e - f - t).toNat / n) t
        (UnpackedFloat.accuracyOfFraction (m <<< (e - f - t).toNat % n) n) := by
    rw [ht]
    rfl
  have hv : ((m * 2 ^ e) / (n * 2 ^ f) : ℝ) / 2 ^ t = ((m <<< (e - f - t).toNat : ℕ) : ℝ) / n := by
    obtain ⟨k, rfl⟩ : ∃ k : ℕ, e = k + f + t := ⟨(e - f - t).toNat, by omega⟩
    have hk : (k + f + t - f - t).toNat = k := by omega
    have hn' : (n : ℝ) ≠ 0 := by exact_mod_cast hn.ne'
    rw [hk, Nat.shiftLeft_eq, zpow_add₀ (by norm_num : (2 : ℝ) ≠ 0), zpow_add₀ (by norm_num : (2 : ℝ) ≠ 0),
      zpow_natCast]
    push_cast
    field_simp
  have hr := reads_div (m <<< (e - f - t).toNat) hn
  rw [← hv] at hr
  rw [hdiv]
  refine stands_of_rounding (roundWithAccuracy_eq .positive ?_ hr (ample_div hm hn (by omega) (by omega)))
  exact div_pos (magnitude_pos hm e) (magnitude_pos hn f)

/-- The quotient of a number that is not negative by a finite positive one. -/
theorem stands_div {u : UnpackedFloat} {x : EReal} (hu : Stands u x) (hx : 0 ≤ x) {n : ℕ} (hn : 0 < n) (f : ℤ) :
    Stands (stored (UnpackedFloat.div Format.binary64 u (.finite .positive n f hn)))
      (rounded (x / ((n * 2 ^ f : ℝ) : EReal))) := by
  rcases cases_of_nonneg hu hx with ⟨rfl, rfl⟩ | ⟨s, rfl, rfl⟩ | ⟨m, e, hm, rfl, rfl⟩
  · rw [EReal.top_div_of_pos_ne_top (by exact_mod_cast magnitude_pos hn f) (EReal.coe_ne_top _), rounded_top]
    show Stands (stored (.infinity .positive)) ⊤
    rw [stored_infinity]
    exact ⟨nofun, rfl⟩
  · rw [EReal.zero_div, rounded_zero]
    have hdiv : UnpackedFloat.div Format.binary64 (.zero s) (.finite .positive n f hn) = .zero (s / Sign.positive) :=
      rfl
    rw [hdiv, stored_zero]
    exact ⟨nofun, rfl⟩
  · rw [← EReal.coe_div]
    exact stands_div_finite hm hn e f

/-- Nothing positive comes of dividing zero, or of dividing by infinity. -/
theorem value_div_vanishing {u w : UnpackedFloat} (h : (∃ s, u = .zero s) ∨ ∃ s, w = .infinity s) :
    value (stored (UnpackedFloat.div Format.binary64 u w)) = 0 := by
  have none : value (stored .notANumber) = 0 := by
    rw [stored_notANumber]
    rfl
  have zero (s : Sign) : value (stored (.zero s)) = 0 := by
    rw [stored_zero]
    rfl
  rcases h with ⟨s, rfl⟩ | ⟨s, rfl⟩
  · cases w with
    | notANumber => exact none
    | infinity t => exact zero _
    | zero t => exact none
    | finite t n f hn => exact zero _
  · cases u with
    | notANumber => exact none
    | infinity t => exact none
    | zero t => exact zero _
    | finite t n f hn => exact zero _

/-! ## Conversion -/

/-- A small natural number is converted and multiplied by one. -/
theorem unpacked_ofNat_of_lt {n : ℕ} (h : n < 2 ^ 53) :
    unpacked (Float.ofNat n) = stored (UnpackedFloat.mul Format.binary64
      (stored (UnpackedFloat.normalize Format.binary64 (n : ℤ) 0 .positive))
      (.finite .positive (2 ^ 52) (-52) (by decide))) := by
  have hn : n.toUInt64.toNat = n := by
    show n % 2 ^ 64 = n
    omega
  have hs : Float.ofNat n = n.toUInt64.toFloat * Float.ofBits 0x3FF0000000000000 := by
    show Float.ofScientific n false 0 = _
    rw [Float.ofScientific, dif_pos ⟨h, by decide⟩]
    rfl
  have hf : unpacked n.toUInt64.toFloat =
      stored (UnpackedFloat.normalize Format.binary64 (n.toUInt64.toNat : ℤ) 0 .positive) := rfl
  rw [hn] at hf
  rw [hs, ← hf]
  rfl

/-- A large natural number is multiplied by one with its mantissa widened. -/
theorem unpacked_ofNat_of_le {n : ℕ} (h : 2 ^ 53 ≤ n) :
    unpacked (Float.ofNat n) = stored (UnpackedFloat.mul Format.binary64
      (.finite .positive (n <<< 53) (-53) (shiftLeft_pos (by omega) 53)) (.finite .positive 1 0 (by decide))) := by
  have hs : Float.ofNat n = Float.ofModel (Float.Model.ofScientific n 0) := by
    show Float.ofScientific n false 0 = _
    rw [Float.ofScientific, dif_neg (by omega)]
    rfl
  have hm : UnpackedFloat.ofScientific Format.binary64 n 0 = UnpackedFloat.mul Format.binary64
      (.finite .positive (n <<< 53) (-53) (shiftLeft_pos (by omega) 53)) (.finite .positive 1 0 (by decide)) := by
    have hlow : ¬(0 : ℤ) < -((2 ^ Format.binary64.exponentBits : ℤ) + n.log2) := by
      show ¬(0 : ℤ) < -(2048 + n.log2)
      omega
    rw [UnpackedFloat.ofScientific, dif_neg (by omega), if_neg (by decide), if_neg hlow, if_pos (by decide)]
    rfl
  rw [hs, ← hm]
  rfl

/-- The rounding of a small natural number has an exponent of the format. -/
theorem exponent_le_of_grid_le {k : ℕ} {f : ℤ} (h : Canonical k f) (hle : (k * 2 ^ f : ℝ) ≤ 2 ^ 53) : f ≤ 971 := by
  by_contra hf
  have hk : 2 ^ 52 ≤ k := h.2.2.resolve_right (by omega)
  have hr : (2 : ℝ) ^ (52 : ℤ) ≤ k := by exact_mod_cast hk
  have hlarge : (2 : ℝ) ^ ((1024 : ℕ) : ℤ) ≤ 2 ^ ((53 : ℕ) : ℤ) := by
    calc (2 : ℝ) ^ ((1024 : ℕ) : ℤ) ≤ 2 ^ (52 + f) := zpow_le_zpow_right₀ (by norm_num) (by omega)
      _ = 2 ^ (52 : ℤ) * 2 ^ f := zpow_add₀ (by norm_num) _ _
      _ ≤ k * 2 ^ f := mul_le_mul_of_nonneg_right hr (two_zpow_pos f).le
      _ ≤ 2 ^ 53 := hle
      _ = 2 ^ ((53 : ℕ) : ℤ) := (zpow_natCast _ _).symm
  have := (zpow_le_zpow_iff_right₀ (by norm_num : (1 : ℝ) < 2)).1 hlarge
  omega

/-- A natural number is rounded once. -/
theorem stands_ofNat (n : ℕ) : Stands (unpacked (Float.ofNat n)) (rounded ((n : ℝ) : EReal)) := by
  rcases Nat.eq_zero_or_pos n with rfl | hpos
  · have h0 : unpacked (Float.ofNat 0) = .zero .positive := rfl
    rw [h0, Nat.cast_zero, EReal.coe_zero, rounded_zero]
    exact ⟨nofun, rfl⟩
  rcases Nat.lt_or_ge n (2 ^ 53) with hlt | hge
  · have hn : (1 : ℝ) ≤ n := by exact_mod_cast hpos
    obtain ⟨k, f, hk, hval, hround⟩ := round_eq .positive hpos 0
    rw [zpow_zero, mul_one] at hval
    have hle : grid (n : ℝ) ≤ 2 ^ 53 := by
      rw [← grid_two_pow 53]
      exact grid_mono (by positivity) (by exact_mod_cast hlt.le)
    have hge : 1 ≤ grid (n : ℝ) := by
      have h1 := grid_mono (by norm_num) hn
      rwa [← pow_zero (2 : ℝ), grid_two_pow 0] at h1
    have hkpos : 0 < k := by
      rcases Nat.eq_zero_or_pos k with rfl | h
      · rw [← hval, Nat.cast_zero, zero_mul] at hge
        exact absurd hge (by norm_num)
      · exact h
    have hf : f ≤ 971 := exponent_le_of_grid_le hk (hval ▸ hle)
    have ha : assemble .positive k f = .finite .positive k f hkpos := dif_neg hkpos.ne'
    rw [unpacked_ofNat_of_lt hlt, normalize_natCast hpos, hround, ha, stored_finite ⟨hk, hf⟩]
    have hone : (k * 2 ^ f * ((2 ^ 52 : ℕ) * 2 ^ (-52 : ℤ)) : ℝ) = k * 2 ^ f := by norm_num
    have hample : Ample (k * 2 ^ 52) (f + -52) :=
      Or.inl ((Nat.le_log2 (by positivity)).2 (Nat.le_mul_of_pos_left _ hkpos))
    have hm := stands_mul_finite hkpos (by decide : 0 < 2 ^ 52) f (-52) hample
    rw [hone, rounded_coe, grid_of_canonical hk, hval, ← rounded_coe] at hm
    exact hm
  · have hw : (((n <<< 53 : ℕ) : ℝ) * 2 ^ (-53 : ℤ) * ((1 : ℕ) * 2 ^ (0 : ℤ))) = n := by
      have h := shiftLeft_mul_zpow n 53 0
      rw [zpow_zero, mul_one] at h
      rw [Nat.cast_one, zpow_zero, mul_one, mul_one]
      exact h
    have hample : Ample (n <<< 53 * 1) (-53 + 0) := by
      refine Or.inl ?_
      rw [Nat.mul_one, log2_shiftLeft hpos]
      omega
    have hm := stands_mul_finite (shiftLeft_pos hpos 53) (by decide : 0 < 1) (-53) 0 hample
    rw [hw] at hm
    rw [unpacked_ofNat_of_le hge]
    exact hm

end ToleranceClustering.Binary64
