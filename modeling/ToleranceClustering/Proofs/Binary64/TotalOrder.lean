import Mathlib
import ToleranceClustering.Proofs.Binary64.Bounds
import ToleranceClustering.Proofs.RankedNumbers

/-!
# The total order of binary64

Among positive numbers the order of the bits is that of the numbers (`binary64Rank_lt_iff`): the exponent stands before
the mantissa, and infinity behind every finite number. Zeros stand below them (`le_of_order`).
-/

namespace ToleranceClustering.Binary64

open Float.Model (Format UnpackedFloat)
open Float.Model.UnpackedFloat (packComponents)
open Scalar (binary64Rank)

/-! ## Places -/

/-- The bits of a positive number, read as a number: the exponent field, and the mantissa field behind it. -/
theorem toNat_packComponents (e : BitVec 11) (m : BitVec 52) :
    (packComponents Format.binary64 .positive e m).toNat = e.toNat * 2 ^ 52 + m.toNat := by
  have hsign : (UnpackedFloat.Sign.positive.toBitVec ++ e).toNat = e.toNat := by
    rw [BitVec.toNat_append, ← Nat.shiftLeft_add_eq_or_of_lt e.isLt]
    exact Nat.zero_add _
  have happend : packComponents Format.binary64 .positive e m = UnpackedFloat.Sign.positive.toBitVec ++ e ++ m := rfl
  rw [happend, BitVec.toNat_append, ← Nat.shiftLeft_add_eq_or_of_lt m.isLt, hsign, Nat.shiftLeft_eq]

theorem toNat_toBits (x : Float) : x.toBits.toNat = (UnpackedFloat.pack Format.binary64 (unpacked x)).toNat := by
  rw [pack_unpacked]
  rfl

/-- The place of a positive finite number: the mantissa comes on top of the exponent, counted from the least one. -/
theorem toBits_of_finite {x : Float} {m : ℕ} {e : ℤ} {hm : 0 < m} (h : unpacked x = .finite .positive m e hm) :
    (x.toBits.toNat : ℤ) = (e + 1074) * 2 ^ 52 + m := by
  have hproper := proper_unpacked x
  rw [h] at hproper
  obtain ⟨⟨hlt, hlow, hfull⟩, hhigh⟩ := hproper
  have hassemble : assemble .positive m e = .finite .positive m e hm := dif_neg hm.ne'
  have hfit : ¬2 ^ 11 ≤ (e + 1075).toNat + 1 := by omega
  rw [toNat_toBits, h, ← hassemble, pack_assemble .positive hm, if_neg hfit]
  rcases Nat.lt_or_ge m (2 ^ 52) with hsmall | hlarge
  · have hlog : ¬m.log2 + 1 = 53 := by
      have := (Nat.log2_lt hm.ne').2 hsmall
      omega
    have hmod : (BitVec.ofNat 52 m).toNat = m := Nat.mod_eq_of_lt hsmall
    have hleast : e = -1074 := hfull.resolve_left (by omega)
    rw [if_neg hlog, hleast]
    refine (congrArg Nat.cast (toNat_packComponents 0 (BitVec.ofNat 52 m))).trans ?_
    rw [hmod]
    simp
  · have hlog : m.log2 + 1 = 53 := by
      have h₁ := (Nat.log2_lt hm.ne').2 hlt
      have h₂ := (Nat.le_log2 hm.ne').2 hlarge
      omega
    have hmod : (BitVec.ofNat 52 m).toNat = m - 2 ^ 52 := by
      show m % 2 ^ 52 = m - 2 ^ 52
      omega
    have hexp : (BitVec.ofNat 11 (e + 1075).toNat).toNat = (e + 1075).toNat := Nat.mod_eq_of_lt (by omega)
    rw [if_pos hlog]
    refine (congrArg Nat.cast (toNat_packComponents (BitVec.ofNat 11 (e + 1075).toNat) (BitVec.ofNat 52 m))).trans ?_
    rw [hmod, hexp]
    omega

/-- The place of infinity. -/
theorem toBits_of_infinity {x : Float} (h : unpacked x = .infinity .positive) : x.toBits.toNat = 2047 * 2 ^ 52 := by
  rw [toNat_toBits, h]
  rfl

/-- What a positive number stands for, and its rank. -/
theorem positive_cases {x : Float} (h : Zero.zero < x) :
    (worth x = ⊤ ∧ binary64Rank x = 2047 * 2 ^ 52) ∨
      ∃ (m : ℕ) (e : ℤ), Canonical m e ∧ e ≤ 971 ∧ worth x = ((m * 2 ^ e : ℝ) : EReal) ∧
        binary64Rank x = (e + 1074) * 2 ^ 52 + m := by
  obtain ⟨hx, hpos⟩ := pos_iff.1 h
  have hrank : x.toBits.toNat < 2 ^ 63 → binary64Rank x = x.toBits.toNat := fun hlt => if_pos hlt
  rcases cases_of_nonneg (stands_unpacked hx) hpos.le with ⟨hu, hv⟩ | ⟨s, -, hv⟩ | ⟨m, e, hm, hu, hv⟩
  · have hbits := toBits_of_infinity hu
    refine Or.inl ⟨hv, ?_⟩
    rw [hrank (by omega), hbits]
    rfl
  · exact absurd hv hpos.ne'
  · have hbits := toBits_of_finite hu
    have hproper := proper_unpacked x
    rw [hu] at hproper
    obtain ⟨hcanonical, hhigh⟩ := hproper
    have hlt := hcanonical.1
    refine Or.inr ⟨m, e, hcanonical, hhigh, hv, ?_⟩
    rw [hrank (by omega), hbits]

/-! ## The order -/

/-- Of positive numbers, the smaller one has the smaller rank. -/
theorem binary64Rank_lt {x y : Float} (h : Zero.zero < x) (hlt : x < y) : binary64Rank x < binary64Rank y := by
  have hworth := (lt_iff.1 hlt).2.2
  have hy : Zero.zero < y := Scalar.lt_trans h hlt
  rcases positive_cases h with ⟨hx, -⟩ | ⟨m, e, hm, he, hx, hrank⟩
  · rw [hx] at hworth
    exact absurd hworth not_top_lt
  · rcases positive_cases hy with ⟨-, hrank'⟩ | ⟨n, f, hn, -, hy, hrank'⟩
    · have hsmall := hm.1
      omega
    · rw [hx, hy, EReal.coe_lt_coe_iff] at hworth
      have hcompare := compare_magnitudes hm hn
      rw [compare_lt_iff_lt.2 hworth, Ordering.then_eq_lt, compare_lt_iff_lt, compare_eq_iff_eq,
        compare_lt_iff_lt] at hcompare
      obtain ⟨hsmall, hlow, -⟩ := hm
      obtain ⟨-, -, hfull⟩ := hn
      omega

/-- Positive numbers are ordered as their ranks. -/
theorem binary64Rank_lt_iff {x y : Float} (hx : Zero.zero < x) (hy : Zero.zero < y) :
    binary64Rank x < binary64Rank y ↔ x < y := by
  refine ⟨fun hrank => ?_, binary64Rank_lt hx⟩
  have nx := Scalar.Ordered.right_number (Scalar.Ordered.le_of_lt hx)
  have ny := Scalar.Ordered.right_number (Scalar.Ordered.le_of_lt hy)
  refine (Scalar.Ordered.le_or_lt ny nx).resolve_left ?_
  intro hle
  rcases Scalar.Ordered.le_or_lt nx ny with hle' | hlt
  · obtain rfl := Scalar.Normal.eq_of_le_of_le hx hle' hle
    exact lt_irrefl _ hrank
  · exact lt_asymm hrank (binary64Rank_lt hy hlt)

/-- Zeros of either sign stand below the positive numbers. -/
theorem binary64Rank_of_zero {x : Float} (hx : IsNumber x) (h : worth x = 0) : binary64Rank x ≤ 0 := by
  rcases cases_of_nonneg (stands_unpacked hx) h.ge with ⟨-, hv⟩ | ⟨s, hu, -⟩ | ⟨m, e, hm, -, hv⟩
  · rw [h] at hv
    exact absurd hv.symm EReal.top_ne_zero
  · have hbits : x.toBits.toNat = (UnpackedFloat.pack Format.binary64 (.zero s)).toNat := by rw [toNat_toBits, hu]
    unfold binary64Rank
    rw [hbits]
    cases s <;> decide
  · rw [h] at hv
    exact absurd (EReal.coe_injective hv).symm (magnitude_pos hm e).ne'

theorem binary64Rank_pos {x : Float} (h : Zero.zero < x) : 0 < binary64Rank x := by
  rcases positive_cases h with ⟨-, hrank⟩ | ⟨m, e, hm, -, hv, hrank⟩
  · omega
  · have hne : m ≠ 0 := by
      rintro rfl
      have hpos := (pos_iff.1 h).2
      rw [hv, Nat.cast_zero, zero_mul] at hpos
      exact lt_irrefl _ hpos
    have hlow := hm.2.1
    omega

/-- Of two numbers that are not negative, the one that the order puts first is at most the other. -/
theorem le_of_order {x y : Float} (hx : Zero.zero ≤ x) (hy : Zero.zero ≤ y) (h : (Scalar.order x y).isLE) : x ≤ y := by
  have nx := Scalar.Ordered.right_number hx
  have ny := Scalar.Ordered.right_number hy
  refine (Scalar.Ordered.le_or_lt nx ny).resolve_right ?_
  intro hlt
  have hle : binary64Rank x ≤ binary64Rank y := Int.isLE_compare.1 h
  obtain ⟨hn, hpos⟩ := nonneg_iff.1 hy
  rcases hpos.lt_or_eq with hpos | hzero
  · exact absurd (binary64Rank_lt (pos_iff.2 ⟨hn, hpos⟩) hlt) (not_lt.2 hle)
  · have hbelow := binary64Rank_of_zero hn hzero.symm
    have habove := binary64Rank_pos (Scalar.Ordered.lt_of_le_of_lt hy hlt)
    omega

/-- Adding zero to a positive number does not change it. -/
theorem add_zero_of_pos {x : Float} (h : Zero.zero < x) : x + Zero.zero = x := by
  obtain ⟨hx, hpos⟩ := pos_iff.1 h
  obtain ⟨hn, hsum⟩ := number_add hx number_zero.1 hpos.le number_zero.2.ge
  rw [number_zero.2, add_zero, rounded_worth hx hpos.le] at hsum
  exact (eq_of_worth_eq hx hn hpos hsum.symm).symm

instance : Scalar.Ranked Float where
  transCmp := inferInstanceAs (Std.TransCmp (compareOn binary64Rank))
  order_eq_lt hx hy := compare_lt_iff_lt.trans (binary64Rank_lt_iff hx hy)
  zero_add_zero := by decide +kernel
  zero_add h := zero_add_of_pos h
  add_zero h := add_zero_of_pos h

end ToleranceClustering.Binary64
