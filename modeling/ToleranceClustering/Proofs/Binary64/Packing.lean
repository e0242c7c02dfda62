import Mathlib
import ToleranceClustering.Proofs.Binary64.Accuracy

/-!
# Packing

What the format keeps of a rounded number: the number itself up to the largest exponent, and infinity above it
(`stands_stored`). `rounded` is what becomes of an exact result that is not negative.
-/

namespace ToleranceClustering.Binary64

open Float.Model (Format UnpackedFloat)
open Float.Model.UnpackedFloat (Accuracy Sign packComponents)

/-! ## Packing -/

/-- The sign bit is where it was put, in every format. -/
theorem unpackSign_packComponents {spec : Format} (s : Sign) (e : BitVec spec.exponentBits)
    (m : BitVec spec.mantissaBitsWithoutImplicit) :
    Sign.ofBitVec (UnpackedFloat.unpackSign (packComponents spec s e m)) = s := by
  have h : UnpackedFloat.unpackSign (packComponents spec s e m) = s.toBitVec := by
    ext i hi
    obtain rfl : i = 0 := by omega
    simp [UnpackedFloat.unpackSign, packComponents, BitVec.getLsbD_append, BitVec.getElem_append]
  rw [h]
  cases s <;> rfl

/-- Unpacking what was put together from an exponent field and a mantissa field. -/
theorem unpack_packComponents (s : Sign) (e : BitVec 11) (m : BitVec 52) :
    UnpackedFloat.unpack Format.binary64 (packComponents Format.binary64 s e m) =
      if e.toNat = 2047 then if m.toNat = 0 then .infinity s else .notANumber
      else if e.toNat = 0 then assemble s m.toNat (-1074)
      else assemble s (2 ^ 52 + m.toNat) (e.toNat - 1075) := by
  have htop : e = -1#_ ↔ e.toNat = 2047 := BitVec.toNat_inj.symm
  have hzero : e = 0#_ ↔ e.toNat = 0 := BitVec.toNat_inj.symm
  have hm : m = 0#_ ↔ m.toNat = 0 := BitVec.toNat_inj.symm
  unfold UnpackedFloat.unpack
  simp only [UnpackedFloat.unpackExponent_packComponents, UnpackedFloat.unpackMantissa_packComponents,
    unpackSign_packComponents, htop, hzero, hm]
  split
  · rfl
  · split
    · rename_i h
      unfold assemble
      split
      · rfl
      · congr 1
        rw [h]
        rfl
    · unfold assemble
      rw [dif_neg (by omega)]
      congr 1
      exact toNat_append_one m

/-- How a finite number is packed. -/
theorem pack_assemble (s : Sign) {m : ℕ} (hm : 0 < m) (e : ℤ) :
    UnpackedFloat.pack Format.binary64 (assemble s m e) =
      if 2 ^ 11 ≤ (e + 1075).toNat + 1 then packComponents Format.binary64 s (-1) 0
      else if m.log2 + 1 = 53 then
        packComponents Format.binary64 s (BitVec.ofNat 11 (e + 1075).toNat) (BitVec.ofNat 52 m)
      else packComponents Format.binary64 s 0 (BitVec.ofNat 52 m) := by
  have hb : e + 1075 = e + Format.binary64.exponentBias + Format.binary64.mantissaBitsWithoutImplicit :=
    (Int.add_assoc e 1023 52).symm
  rw [assemble, dif_neg hm.ne', hb]
  rfl

/-- A number with the exponents of the format is not cut off. -/
theorem cap_of_canonical {m : ℕ} {e : ℤ} (h : Canonical m e) (he : e ≤ 971) :
    cap (m * 2 ^ e) = ((m * 2 ^ e : ℝ) : EReal) := by
  have hr : (m : ℝ) < 2 ^ (53 : ℤ) := by exact_mod_cast h.1
  have hsmall : (m * 2 ^ e : ℝ) < 2 ^ 1024 := by
    calc (m * 2 ^ e : ℝ) < 2 ^ (53 : ℤ) * 2 ^ e := mul_lt_mul_of_pos_right hr (two_zpow_pos e)
      _ = 2 ^ (53 + e) := (zpow_add₀ (by norm_num) _ _).symm
      _ ≤ 2 ^ ((1024 : ℕ) : ℤ) := zpow_le_zpow_right₀ (by norm_num) (by omega)
      _ = 2 ^ 1024 := zpow_natCast _ _
  exact if_pos hsmall

/-- A number with the exponents of the format comes back as it was packed. -/
theorem unpack_pack_of_le (s : Sign) {m : ℕ} {e : ℤ} (h : Canonical m e) (he : e ≤ 971) :
    UnpackedFloat.unpack Format.binary64 (UnpackedFloat.pack Format.binary64 (assemble s m e)) = assemble s m e := by
  obtain ⟨hm, hlow, hfull⟩ := h
  rcases Nat.eq_zero_or_pos m with rfl | hpos
  · exact unpack_packComponents s 0 0
  have hfit : ¬2 ^ 11 ≤ (e + 1075).toNat + 1 := by omega
  rw [pack_assemble s hpos, if_neg hfit]
  rcases Nat.lt_or_ge m (2 ^ 52) with hlt | hge
  · have hlog : ¬m.log2 + 1 = 53 := by
      have := (Nat.log2_lt hpos.ne').2 hlt
      omega
    have hmod : (BitVec.ofNat 52 m).toNat = m := Nat.mod_eq_of_lt hlt
    have hes : e = -1074 := hfull.resolve_left (by omega)
    rw [if_neg hlog]
    refine (unpack_packComponents s 0 (BitVec.ofNat 52 m)).trans ?_
    rw [hmod, if_neg (by decide), if_pos (by decide), ← hes]
  · have hlog : m.log2 + 1 = 53 := by
      have h₁ := (Nat.log2_lt hpos.ne').2 hm
      have h₂ := (Nat.le_log2 hpos.ne').2 hge
      omega
    have hmod : (BitVec.ofNat 52 m).toNat = m - 2 ^ 52 := by
      show m % 2 ^ 52 = m - 2 ^ 52
      omega
    have hexp : (BitVec.ofNat 11 (e + 1075).toNat).toNat = (e + 1075).toNat := Nat.mod_eq_of_lt (by omega)
    rw [if_pos hlog]
    refine (unpack_packComponents s (BitVec.ofNat 11 (e + 1075).toNat) (BitVec.ofNat 52 m)).trans ?_
    have hm' : 2 ^ 52 + (m - 2 ^ 52) = m := by omega
    have he' : ((e + 1075).toNat : ℤ) - 1075 = e := by omega
    rw [hmod, hexp, if_neg (by omega), if_neg (by omega), hm', he']

/-- A number with a larger exponent comes back as infinity. -/
theorem unpack_pack_of_gt (s : Sign) {m : ℕ} {e : ℤ} (hm : 0 < m) (he : 971 < e) :
    UnpackedFloat.unpack Format.binary64 (UnpackedFloat.pack Format.binary64 (assemble s m e)) = .infinity s := by
  have hfit : 2 ^ 11 ≤ (e + 1075).toNat + 1 := by omega
  rw [pack_assemble s hm, if_pos hfit]
  exact unpack_packComponents s (-1) 0

theorem value_assemble (m : ℕ) (e : ℤ) : value (assemble .positive m e) = ((m * 2 ^ e : ℝ) : EReal) := by
  unfold assemble
  split
  · rename_i h
    rw [h, Nat.cast_zero, zero_mul]
    rfl
  · rfl

theorem assemble_ne_notANumber (s : Sign) (m : ℕ) (e : ℤ) : assemble s m e ≠ .notANumber := by
  unfold assemble
  split <;> exact nofun

/-- What the format keeps of an unpacked number. -/
def stored (u : UnpackedFloat) : UnpackedFloat :=
  UnpackedFloat.unpack Format.binary64 (UnpackedFloat.pack Format.binary64 u)

theorem stored_notANumber : stored .notANumber = .notANumber := unpack_packComponents .positive (-1) (1 <<< 51)

theorem stored_infinity (s : Sign) : stored (.infinity s) = .infinity s := unpack_packComponents s (-1) 0

theorem stored_zero (s : Sign) : stored (.zero s) = .zero s := unpack_packComponents s 0 0

theorem stored_finite {s : Sign} {m : ℕ} {e : ℤ} {hm : 0 < m} (h : Proper (.finite s m e hm)) :
    stored (.finite s m e hm) = .finite s m e hm := by
  have ha : assemble s m e = .finite s m e hm := dif_neg hm.ne'
  rw [stored, ← ha]
  exact unpack_pack_of_le s h.1 h.2

/-- An unpacked number that is one, and what it stands for. -/
def Stands (u : UnpackedFloat) (x : EReal) : Prop := u ≠ .notANumber ∧ value u = x

/-- Packing cuts a number off at the largest one. -/
theorem stands_stored {m : ℕ} {e : ℤ} (h : Canonical m e) :
    Stands (stored (assemble .positive m e)) (cap (m * 2 ^ e)) := by
  unfold stored
  rcases Int.lt_or_le 971 e with he | he
  · have hm : 2 ^ 52 ≤ m := h.2.2.resolve_right (by omega)
    have hlarge : ¬(m * 2 ^ e : ℝ) < 2 ^ 1024 := by
      have hr : (2 : ℝ) ^ (52 : ℤ) ≤ m := by exact_mod_cast hm
      rw [not_lt]
      calc (2 : ℝ) ^ 1024 = 2 ^ ((1024 : ℕ) : ℤ) := (zpow_natCast _ _).symm
        _ ≤ 2 ^ (52 + e) := zpow_le_zpow_right₀ (by norm_num) (by omega)
        _ = 2 ^ (52 : ℤ) * 2 ^ e := zpow_add₀ (by norm_num) _ _
        _ ≤ m * 2 ^ e := mul_le_mul_of_nonneg_right hr (two_zpow_pos e).le
    rw [unpack_pack_of_gt _ (by omega) he, cap, if_neg hlarge]
    exact ⟨nofun, rfl⟩
  · rw [unpack_pack_of_le _ h he, cap_of_canonical h he]
    exact ⟨assemble_ne_notANumber _ _ _, value_assemble m e⟩

/-! ## Rounding and overflow -/

/-- What the format makes of an exact result that is not negative. -/
noncomputable def rounded (x : EReal) : EReal := if x = ⊤ then ⊤ else cap (grid x.toReal)

theorem rounded_top : rounded ⊤ = ⊤ := if_pos rfl

theorem rounded_coe (v : ℝ) : rounded v = cap (grid v) := by
  rw [rounded, if_neg (EReal.coe_ne_top v), EReal.toReal_coe]

theorem rounded_zero : rounded 0 = 0 := by
  rw [← EReal.coe_zero, rounded_coe, grid_zero, cap, if_pos (by positivity)]

theorem cap_mono {v w : ℝ} (h : v ≤ w) : cap v ≤ cap w := by
  unfold cap
  split
  · split
    · exact_mod_cast h
    · exact le_top
  · rename_i hv
    rw [if_neg fun hw => hv (lt_of_le_of_lt h hw)]

/-- Rounding keeps the order. -/
theorem rounded_mono {x y : EReal} (hx : 0 ≤ x) (h : x ≤ y) : rounded x ≤ rounded y := by
  induction y with
  | bot => exact absurd (hx.trans h) (not_le_of_gt (EReal.bot_lt_coe 0))
  | top =>
    rw [rounded_top]
    exact le_top
  | coe w =>
    induction x with
    | bot => exact absurd hx (not_le_of_gt (EReal.bot_lt_coe 0))
    | top => exact absurd h (not_le_of_gt (EReal.coe_lt_top w))
    | coe v =>
      rw [rounded_coe, rounded_coe]
      exact cap_mono (grid_mono (by exact_mod_cast hx) (by exact_mod_cast h))

theorem rounded_nonneg {x : EReal} (hx : 0 ≤ x) : 0 ≤ rounded x := by
  have h := rounded_mono (le_refl 0) hx
  rwa [rounded_zero] at h

/-- The numbers that are not negative. -/
theorem cases_of_nonneg {u : UnpackedFloat} {x : EReal} (h : Stands u x) (hx : 0 ≤ x) :
    u = .infinity .positive ∧ x = ⊤ ∨ (∃ s, u = .zero s ∧ x = 0) ∨
      ∃ m e hm, u = .finite .positive m e hm ∧ x = ((m * 2 ^ e : ℝ) : EReal) := by
  obtain ⟨hu, rfl⟩ := h
  cases u with
  | notANumber => exact absurd rfl hu
  | infinity s =>
    cases s with
    | positive => exact Or.inl ⟨rfl, rfl⟩
    | negative => exact absurd hx (not_le_of_gt (EReal.bot_lt_coe 0))
  | zero s => exact Or.inr (Or.inl ⟨s, rfl, rfl⟩)
  | finite s m e hm =>
    cases s with
    | positive => exact Or.inr (Or.inr ⟨m, e, hm, rfl, rfl⟩)
    | negative =>
      have hneg : (-(m * 2 ^ e) : ℝ) < 0 := neg_neg_of_pos (magnitude_pos hm e)
      exact absurd hx (not_le_of_gt (EReal.coe_lt_coe_iff.2 hneg))

/-- A number of the format is its own rounding. -/
theorem rounded_of_stands {u : UnpackedFloat} {x : EReal} (hp : Proper u) (h : Stands u x) (hx : 0 ≤ x) :
    rounded x = x := by
  rcases cases_of_nonneg h hx with ⟨-, rfl⟩ | ⟨s, -, rfl⟩ | ⟨m, e, hm, rfl, rfl⟩
  · exact rounded_top
  · exact rounded_zero
  · rw [rounded_coe, grid_of_canonical hp.1, cap_of_canonical hp.1 hp.2]

theorem stands_of_rounding {u : UnpackedFloat} {v : ℝ}
    (h : ∃ k f, Canonical k f ∧ (k * 2 ^ f : ℝ) = grid v ∧ u = assemble .positive k f) :
    Stands (stored u) (rounded v) := by
  obtain ⟨k, f, hk, hv, rfl⟩ := h
  rw [rounded_coe, ← hv]
  exact stands_stored hk

end ToleranceClustering.Binary64
