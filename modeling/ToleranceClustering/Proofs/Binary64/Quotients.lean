import Mathlib
import ToleranceClustering.Proofs.Binary64.Bounds

/-!
# Quotients below one

A number divided by a larger one is below one also after rounding (`div_lt_one`): the two are at least a `2 ^ 53`rd part of
the larger one apart, and the format still tells one less that part from one. So the quotient of a count by a larger one is
below one unless both are converted to the same number (`ofNat_div_lt_one`), which different counts up to `2 ^ 53` are not
(`ofNat_inj`), and it is zero only if nothing is divided (`ofNat_div_pos`).
-/

namespace ToleranceClustering.Binary64

/-! ## Smaller and larger numbers -/

/-- Two numbers of the format are a `2 ^ 53`rd part of the larger one apart. -/
theorem le_of_magnitude_lt {m n : ℕ} {e f : ℤ} (hm : Canonical m e) (hn : Canonical n f)
    (h : (m * 2 ^ e : ℝ) < n * 2 ^ f) : (m * 2 ^ e : ℝ) ≤ (1 - 2 ^ (-53 : ℤ)) * (n * 2 ^ f) := by
  have hunit : (2 : ℝ) ^ f = 2 ^ 53 * 2 ^ (f - 53) := by
    rw [← zpow_natCast, ← zpow_add₀ (by norm_num)]
    congr 1
    omega
  have hlarger : (1 - 2 ^ (-53 : ℤ)) * (n * 2 ^ f : ℝ) = n * (2 ^ 53 - 1) * 2 ^ (f - 53) := by
    rw [hunit]
    norm_num
    ring
  have hpos := two_zpow_pos (f - 53)
  rw [hlarger]
  rcases lt_trichotomy e f with hef | rfl | hef
  · -- with the smaller exponent, no mantissa reaches the least one of the larger exponent
    have hmantissa : (m : ℝ) ≤ 2 ^ 53 - 1 := by
      have hbits : m + 1 ≤ 2 ^ 53 := hm.1
      have hcast : (m + 1 : ℝ) ≤ 2 ^ 53 := by exact_mod_cast hbits
      linarith
    have hleast : (2 : ℝ) ^ 52 ≤ n := by
      have hfull : 2 ^ 52 ≤ n := hn.2.2.resolve_right (by have := hm.2.1; omega)
      exact_mod_cast hfull
    have hexponent : (2 : ℝ) ^ e ≤ 2 ^ 52 * 2 ^ (f - 53) := by
      rw [← zpow_natCast, ← zpow_add₀ (by norm_num)]
      exact zpow_le_zpow_right₀ (by norm_num) (by push_cast; omega)
    calc (m * 2 ^ e : ℝ) ≤ (2 ^ 53 - 1) * (2 ^ 52 * 2 ^ (f - 53)) :=
          mul_le_mul hmantissa hexponent (two_zpow_pos e).le (by norm_num)
      _ = 2 ^ 52 * (2 ^ 53 - 1) * 2 ^ (f - 53) := by ring
      _ ≤ n * (2 ^ 53 - 1) * 2 ^ (f - 53) :=
          mul_le_mul_of_nonneg_right (mul_le_mul_of_nonneg_right hleast (by norm_num)) hpos.le
  · -- with the same exponent the mantissas differ by one, and no mantissa is larger than `2 ^ 53`
    have hmantissa : (m + 1 : ℝ) ≤ n := by
      have hlt : (m : ℝ) < n := lt_of_mul_lt_mul_right h (two_zpow_pos e).le
      exact_mod_cast Nat.succ_le_of_lt (Nat.cast_lt.1 hlt)
    have hbits : (n : ℝ) ≤ 2 ^ 53 := by exact_mod_cast hn.1.le
    have hscaled : (m * 2 ^ 53 : ℝ) ≤ n * (2 ^ 53 - 1) := by linarith
    calc (m * 2 ^ e : ℝ) = m * 2 ^ 53 * 2 ^ (e - 53) := by rw [hunit, mul_assoc]
      _ ≤ n * (2 ^ 53 - 1) * 2 ^ (e - 53) := mul_le_mul_of_nonneg_right hscaled hpos.le
  · exact absurd (magnitude_lt_of_lt hn hm hef) h.not_gt

/-- A number of the format that is at most one is its own rounding. -/
theorem rounded_of_canonical {m : ℕ} {e : ℤ} (h : Canonical m e) (hone : (m * 2 ^ e : ℝ) ≤ 1) :
    rounded ((m * 2 ^ e : ℝ) : EReal) = ((m * 2 ^ e : ℝ) : EReal) := by
  have hcap : (m * 2 ^ e : ℝ) < 2 ^ 1024 := hone.trans_lt (one_lt_pow₀ (by norm_num) (by decide))
  rw [rounded_coe, grid_of_canonical h, cap, if_pos hcap]

/-- What is at most the number just below one is rounded to something below one. -/
theorem rounded_lt_one {x : EReal} (hx : 0 ≤ x) (h : x ≤ ((1 - 2 ^ (-53 : ℤ) : ℝ) : EReal)) : rounded x < 1 := by
  have hbelow : ((2 ^ 53 - 1 : ℕ) : ℝ) * 2 ^ (-53 : ℤ) = 1 - 2 ^ (-53 : ℤ) := by norm_num
  have hcanonical : Canonical (2 ^ 53 - 1) (-53) := ⟨by decide, by decide, Or.inl (by decide)⟩
  have hone : (1 - 2 ^ (-53 : ℤ) : ℝ) < 1 := by norm_num
  have hself := rounded_of_canonical hcanonical (by rw [hbelow]; exact hone.le)
  rw [hbelow] at hself
  calc rounded x ≤ rounded ((1 - 2 ^ (-53 : ℤ) : ℝ) : EReal) := rounded_mono hx h
    _ = ((1 - 2 ^ (-53 : ℤ) : ℝ) : EReal) := hself
    _ < 1 := by exact_mod_cast hone

/-- A number divided by a larger, finite one is below one. -/
theorem div_lt_one {x y : Float} (hx : Zero.zero ≤ x) (h : x < y) (hy : worth y < ⊤) : x / y < One.one := by
  obtain ⟨nx, px⟩ := nonneg_iff.1 hx
  obtain ⟨-, ny, hlt⟩ := lt_iff.1 h
  have py : 0 < worth y := px.trans_lt hlt
  obtain ⟨nq, hq⟩ := number_div nx px ny py hy
  refine lt_iff.2 ⟨nq, number_one.1, ?_⟩
  rw [hq, number_one.2]
  refine rounded_lt_one (EReal.div_nonneg px py.le) ?_
  rw [EReal.div_le_iff_le_mul py hy.ne]
  have qx := proper_unpacked x
  have qy := proper_unpacked y
  rcases cases_of_nonneg (stands_unpacked ny) py.le with ⟨-, hv⟩ | ⟨s, -, hv⟩ | ⟨n, f, hn, hw, hv⟩
  · exact absurd hv hy.ne
  · exact absurd hv py.ne'
  · rcases cases_of_nonneg (stands_unpacked nx) px with ⟨-, hu⟩ | ⟨s, -, hu⟩ | ⟨m, e, hm, hu, hux⟩
    · rw [hu] at hlt
      exact absurd hlt not_top_lt
    · rw [hu]
      refine mul_nonneg py.le ?_
      exact EReal.coe_nonneg.2 (by norm_num)
    · rw [hu] at qx
      rw [hw] at qy
      rw [hux, hv] at hlt ⊢
      rw [← EReal.coe_mul, mul_comm (n * 2 ^ f : ℝ)]
      exact EReal.coe_le_coe_iff.2 (le_of_magnitude_lt qx.1 qy.1 (EReal.coe_lt_coe_iff.1 hlt))

/-! ## Quotients of counts -/

/-- Counts up to `2 ^ 53` are numbers of the format. -/
theorem worth_ofNat_of_le {n : ℕ} (h : n ≤ 2 ^ 53) : worth (Float.ofNat n) = ((n : ℝ) : EReal) := by
  rw [(number_ofNat n).2]
  rcases h.eq_or_lt with rfl | hlt
  · have hpow := rounded_two_pow (j := 53) (by decide)
    exact_mod_cast hpow
  · have hgrid := grid_natCast_mul_two_pow hlt 0
    rw [pow_zero, mul_one] at hgrid
    have hcap : (n : ℝ) < 2 ^ 1024 := by
      have hcast : (n : ℝ) < 2 ^ 53 := by exact_mod_cast hlt
      exact hcast.trans (pow_lt_pow_right₀ (by norm_num) (by decide))
    rw [rounded_coe, hgrid, cap, if_pos hcap]

/-- Different counts up to `2 ^ 53` are different numbers. -/
theorem ofNat_inj {m n : ℕ} (hm : m ≤ 2 ^ 53) (hn : n ≤ 2 ^ 53) : Float.ofNat m = Float.ofNat n ↔ m = n := by
  refine ⟨fun h => ?_, congrArg Float.ofNat⟩
  have hworth := congrArg worth h
  rw [worth_ofNat_of_le hm, worth_ofNat_of_le hn] at hworth
  exact_mod_cast hworth

variable {m n : ℕ}

theorem ofNat_pos (hn : 0 < n) : Zero.zero < Float.ofNat n :=
  pos_iff.2 ⟨(number_ofNat n).1, lt_of_lt_of_le zero_lt_one (one_le_worth_ofNat hn)⟩

/-- None of some is the positive zero. -/
theorem ofNat_zero_div (hn : 0 < n) (hfit : n < 2 ^ 128) : Float.ofNat 0 / Float.ofNat n = Zero.zero := by
  obtain ⟨nn, pn⟩ := pos_iff.1 (ofNat_pos hn)
  have fn := worth_ofNat_lt_top hfit
  rcases cases_of_nonneg (stands_unpacked nn) pn.le with ⟨-, hv⟩ | ⟨s, -, hv⟩ | ⟨k, f, hk, hu, -⟩
  · exact absurd hv fn.ne
  · exact absurd hv pn.ne'
  · have hzero : unpacked (Float.ofNat 0) = .zero .positive := rfl
    apply eq_of_unpacked_eq
    rw [unpacked_div, hzero, hu]
    exact stored_zero .positive

/-- Some of some is not rounded to zero. -/
theorem ofNat_div_pos (hm : 0 < m) (hn : 0 < n) (hfit : n < 2 ^ 128) :
    Zero.zero < Float.ofNat m / Float.ofNat n := by
  obtain ⟨nn, pn⟩ := pos_iff.1 (ofNat_pos hn)
  have fn := worth_ofNat_lt_top hfit
  obtain ⟨nq, hq⟩ := number_div (number_ofNat m).1 (worth_ofNat_nonneg m) nn pn fn
  have hleast : ((2 ^ 52 : ℕ) : ℝ) * 2 ^ (-180 : ℤ) = 2 ^ (-128 : ℤ) := by norm_num
  have hcanonical : Canonical (2 ^ 52) (-180) := ⟨by decide, by decide, Or.inl (by decide)⟩
  have hself := rounded_of_canonical hcanonical (by rw [hleast]; norm_num)
  rw [hleast] at hself
  have hpos : (0 : ℝ) < 2 ^ (-128 : ℤ) := two_zpow_pos _
  have hbound : worth (Float.ofNat n) ≤ ((2 ^ 128 : ℝ) : EReal) := (upTo_ofNat (by decide) hfit.le).2.2
  have hquotient : ((2 ^ (-128 : ℤ) : ℝ) : EReal) ≤ worth (Float.ofNat m) / worth (Float.ofNat n) := by
    rw [EReal.le_div_iff_mul_le pn fn.ne]
    calc ((2 ^ (-128 : ℤ) : ℝ) : EReal) * worth (Float.ofNat n)
        ≤ ((2 ^ (-128 : ℤ) : ℝ) : EReal) * ((2 ^ 128 : ℝ) : EReal) :=
          mul_le_mul_of_nonneg_left hbound (EReal.coe_nonneg.2 hpos.le)
      _ = 1 := by
          rw [← EReal.coe_mul, ← EReal.coe_one]
          norm_num
      _ ≤ worth (Float.ofNat m) := one_le_worth_ofNat hm
  refine pos_iff.2 ⟨nq, ?_⟩
  calc (0 : EReal) < ((2 ^ (-128 : ℤ) : ℝ) : EReal) := EReal.coe_pos.2 hpos
    _ = rounded ((2 ^ (-128 : ℤ) : ℝ) : EReal) := hself.symm
    _ ≤ rounded (worth (Float.ofNat m) / worth (Float.ofNat n)) := rounded_mono (EReal.coe_nonneg.2 hpos.le) hquotient
    _ = worth (Float.ofNat m / Float.ofNat n) := hq.symm

theorem ofNat_div_self (hn : 0 < n) (hfit : n < 2 ^ 128) : Float.ofNat n / Float.ofNat n = One.one := by
  obtain ⟨nn, pn⟩ := pos_iff.1 (ofNat_pos hn)
  exact div_self_of_finite (ofNat_pos hn) (isFinite_of_lt_top nn pn.le (worth_ofNat_lt_top hfit))

/-- Some of more is below one, unless both are converted to the same number. -/
theorem ofNat_div_lt_one (h : m ≤ n) (hn : 0 < n) (hfit : n < 2 ^ 128) (hne : Float.ofNat m ≠ Float.ofNat n) :
    Float.ofNat m / Float.ofNat n < One.one := by
  obtain ⟨nm, -⟩ := number_ofNat m
  obtain ⟨nn, pn⟩ := pos_iff.1 (ofNat_pos hn)
  have hlt : worth (Float.ofNat m) < worth (Float.ofNat n) := by
    refine lt_of_le_of_ne (worth_ofNat_mono h) fun heq => hne ?_
    exact eq_of_worth_eq nm nn (heq ▸ pn) heq
  exact div_lt_one (nonneg_iff.2 ⟨nm, worth_ofNat_nonneg m⟩) (lt_iff.2 ⟨nm, nn, hlt⟩) (worth_ofNat_lt_top hfit)

end ToleranceClustering.Binary64
