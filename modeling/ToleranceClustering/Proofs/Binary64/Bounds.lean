import Mathlib
import ToleranceClustering.Proofs.Binary64.Laws

/-!
# Bounds

Numbers of the format that are not negative and at most a given real number (`UpTo`) are finite. Products of such numbers
are bounded by the product of powers of two (`UpTo.mul`), and sums of less than `2 ^ 53` of them by their number times one
power of two (`upTo_sum`), since these bounds are numbers of the format themselves and rounding keeps the order.
-/

namespace ToleranceClustering.Binary64

open Float.Model (Format UnpackedFloat)

/-! ## Finite numbers -/

/-- A number that is not negative and at most `b`. -/
def UpTo (b : ℝ) (x : Float) : Prop := IsNumber x ∧ 0 ≤ worth x ∧ worth x ≤ b

/-- What is not infinite is finite. -/
theorem isFinite_of_lt_top {x : Float} (hx : IsNumber x) (px : 0 ≤ worth x) (fx : worth x < ⊤) : x.isFinite = true := by
  show (unpacked x).isFinite = true
  rcases cases_of_nonneg (stands_unpacked hx) px with ⟨-, hv⟩ | ⟨s, hu, -⟩ | ⟨m, e, hm, hu, -⟩
  · rw [hv] at fx
    exact absurd fx (lt_irrefl ⊤)
  · rw [hu]
    rfl
  · rw [hu]
    rfl

/-- Only infinity stands for it. -/
theorem unpacked_of_worth_top {x : Float} (hx : IsNumber x) (h : worth x = ⊤) : unpacked x = .infinity .positive := by
  rcases cases_of_nonneg (stands_unpacked hx) (h ▸ le_top) with ⟨hu, -⟩ | ⟨s, -, hv⟩ | ⟨m, e, hm, -, hv⟩
  · exact hu
  · rw [h] at hv
    exact absurd hv EReal.top_ne_zero
  · rw [h] at hv
    exact absurd hv.symm (EReal.coe_ne_top _)

theorem lt_top_of_isFinite {x : Float} (hx : IsNumber x) (px : 0 ≤ worth x) (h : x.isFinite = true) : worth x < ⊤ := by
  have hf : (unpacked x).isFinite = true := h
  rcases cases_of_nonneg (stands_unpacked hx) px with ⟨hu, -⟩ | ⟨s, -, hv⟩ | ⟨m, e, hm, -, hv⟩
  · rw [hu] at hf
    nomatch hf
  · rw [hv]
    exact EReal.zero_lt_top
  · rw [hv]
    exact EReal.coe_lt_top _

theorem UpTo.lt_top {b : ℝ} {x : Float} (h : UpTo b x) : worth x < ⊤ := lt_of_le_of_lt h.2.2 (EReal.coe_lt_top b)

theorem UpTo.isFinite {b : ℝ} {x : Float} (h : UpTo b x) : x.isFinite = true := isFinite_of_lt_top h.1 h.2.1 h.lt_top

theorem UpTo.mono {b c : ℝ} {x : Float} (h : UpTo b x) (hbc : b ≤ c) : UpTo c x :=
  ⟨h.1, h.2.1, h.2.2.trans (EReal.coe_le_coe_iff.2 hbc)⟩

/-! ## Numbers of the format as bounds -/

/-- A number of less than 53 bits, shifted, is its own rounding. -/
theorem grid_natCast_mul_two_pow {k : ℕ} (hk : k < 2 ^ 53) (j : ℕ) : grid (k * 2 ^ j) = k * 2 ^ j := by
  rcases Nat.eq_zero_or_pos k with rfl | hpos
  · rw [Nat.cast_zero, zero_mul, grid_zero]
  · have hlog : k.log2 < 53 := (Nat.log2_lt hpos.ne').2 hk
    have hwide : (k <<< (52 - k.log2)).log2 = 52 := by
      rw [log2_shiftLeft hpos]
      omega
    have hne := (shiftLeft_pos hpos (52 - k.log2)).ne'
    have hcanonical : Canonical (k <<< (52 - k.log2)) ((j : ℤ) - (52 - k.log2 : ℕ)) := by
      refine ⟨(Nat.log2_lt hne).1 (by omega), by omega, Or.inl ((Nat.le_log2 hne).1 (by omega))⟩
    have hgrid := grid_of_canonical hcanonical
    rw [shiftLeft_mul_zpow, zpow_natCast] at hgrid
    exact hgrid

/-- Such a number is a bound that rounding keeps. -/
theorem rounded_le {x : EReal} (hx : 0 ≤ x) {k j : ℕ} (hk : k < 2 ^ 53) (hj : j < 971) (h : x ≤ (k * 2 ^ j : ℝ)) :
    rounded x ≤ ((k * 2 ^ j : ℝ) : EReal) := by
  have hcap : (k * 2 ^ j : ℝ) < 2 ^ 1024 := by
    have hk' : (k : ℝ) < 2 ^ 53 := by exact_mod_cast hk
    calc (k * 2 ^ j : ℝ) < 2 ^ 53 * 2 ^ j := mul_lt_mul_of_pos_right hk' (by positivity)
      _ = 2 ^ (53 + j) := (pow_add 2 53 j).symm
      _ ≤ 2 ^ 1024 := pow_le_pow_right₀ (by norm_num) (by omega)
  calc rounded x ≤ rounded ((k * 2 ^ j : ℝ) : EReal) := rounded_mono hx h
    _ = ((k * 2 ^ j : ℝ) : EReal) := by rw [rounded_coe, grid_natCast_mul_two_pow hk, cap, if_pos hcap]

theorem rounded_le_two_pow {x : EReal} (hx : 0 ≤ x) {j : ℕ} (hj : j < 971) (h : x ≤ (2 ^ j : ℝ)) :
    rounded x ≤ ((2 ^ j : ℝ) : EReal) := by
  have hone := rounded_le hx (k := 1) (by decide) hj
  rw [Nat.cast_one, one_mul] at hone
  exact hone h

theorem upTo_ofNat {n j : ℕ} (hj : j < 971) (h : n ≤ 2 ^ j) : UpTo (2 ^ j) (Float.ofNat n) := by
  refine ⟨(number_ofNat n).1, worth_ofNat_nonneg n, ?_⟩
  rw [(number_ofNat n).2]
  refine rounded_le_two_pow ?_ hj ?_
  · exact_mod_cast n.cast_nonneg (α := ℝ)
  · exact_mod_cast h

/-! ## Products and quotients -/

/-- Two mantissas of the format have bits enough between them. -/
theorem ample_mul {m n : ℕ} {e f : ℤ} (hm : 0 < m) (hn : 0 < n) (pm : Canonical m e) (pn : Canonical n f) :
    Ample (m * n) (e + f) := by
  have hfull {a b : ℕ} (ha : 2 ^ 52 ≤ a) (hb : 0 < b) : 52 ≤ (a * b).log2 :=
    (Nat.le_log2 (Nat.mul_pos (by omega) hb).ne').2 (ha.trans (Nat.le_mul_of_pos_right a hb))
  rcases pm.2.2 with h | he
  · exact Or.inl (hfull h hn)
  · rcases pn.2.2 with h | hf
    · rw [Nat.mul_comm]
      exact Or.inl (hfull h hm)
    · exact Or.inr (by omega)

/-- The product of two finite numbers that are not negative is rounded once. -/
theorem number_mul {x y : Float} (hx : IsNumber x) (hy : IsNumber y) (px : 0 ≤ worth x) (py : 0 ≤ worth y)
    (fx : worth x < ⊤) (fy : worth y < ⊤) : IsNumber (x * y) ∧ worth (x * y) = rounded (worth x * worth y) := by
  have hmul : unpacked (x * y) = stored (UnpackedFloat.mul Format.binary64 (unpacked x) (unpacked y)) := rfl
  have hzero : ∀ s : Float.Model.UnpackedFloat.Sign, Stands (stored (.zero s)) 0 := by
    intro s
    rw [stored_zero]
    exact ⟨nofun, rfl⟩
  have qx := proper_unpacked x
  have qy := proper_unpacked y
  unfold IsNumber worth at *
  rw [hmul]
  rcases cases_of_nonneg ⟨hx, rfl⟩ px with ⟨-, hv⟩ | ⟨s, hu, hv⟩ | ⟨m, e, hm, hu, hv⟩
  · rw [hv] at fx
    exact absurd fx (lt_irrefl ⊤)
  · rw [hv, zero_mul, rounded_zero, hu]
    rcases cases_of_nonneg ⟨hy, rfl⟩ py with ⟨-, hw⟩ | ⟨t, hw, -⟩ | ⟨n, f, hn, hw, -⟩
    · rw [hw] at fy
      exact absurd fy (lt_irrefl ⊤)
    · rw [hw]
      exact hzero _
    · rw [hw]
      exact hzero _
  · rcases cases_of_nonneg ⟨hy, rfl⟩ py with ⟨-, hw⟩ | ⟨t, hw, hw'⟩ | ⟨n, f, hn, hw, hw'⟩
    · rw [hw] at fy
      exact absurd fy (lt_irrefl ⊤)
    · rw [hw', mul_zero, rounded_zero, hu, hw]
      exact hzero _
    · rw [hu] at qx
      rw [hw] at qy
      rw [hv, hw', hu, hw, ← EReal.coe_mul]
      exact stands_mul_finite hm hn e f (ample_mul hm hn qx.1 qy.1)

/-- A count that is not zero times a number that is not negative, infinity included. -/
theorem nonneg_ofNat_mul {n : ℕ} (hn : 0 < n) (hfit : n < 2 ^ 128) {x : Float} (hx : Zero.zero ≤ x) :
    Zero.zero ≤ Float.ofNat n * x := by
  obtain ⟨nx, px⟩ := nonneg_iff.1 hx
  have fn := worth_ofNat_lt_top hfit
  rcases (le_top (a := worth x)).lt_or_eq with fx | tx
  · obtain ⟨hmul, hw⟩ := number_mul (number_ofNat n).1 nx (worth_ofNat_nonneg n) px fn fx
    rw [nonneg_iff, hw]
    exact ⟨hmul, rounded_nonneg (mul_nonneg (worth_ofNat_nonneg n) px)⟩
  · have hinfinite := unpacked_of_worth_top nx tx
    have hproduct : unpacked (Float.ofNat n * x) =
        stored (UnpackedFloat.mul Format.binary64 (unpacked (Float.ofNat n)) (unpacked x)) := rfl
    have hpos := lt_of_lt_of_le zero_lt_one (one_le_worth_ofNat hn)
    rcases cases_of_nonneg (stands_unpacked (number_ofNat n).1) hpos.le with ⟨-, hv⟩ | ⟨s, -, hv⟩ | ⟨m, e, hm, hu, -⟩
    · rw [hv] at fn
      exact absurd fn (lt_irrefl ⊤)
    · exact absurd hv hpos.ne'
    · have hstored : unpacked (Float.ofNat n * x) = .infinity .positive := by
        rw [hproduct, hu, hinfinite]
        exact stored_infinity _
      rw [nonneg_iff, IsNumber, worth, hstored]
      refine ⟨?_, le_top⟩
      rintro ⟨⟩

/-- A number that is not negative, infinity included, divided by a count that is not zero. -/
theorem nonneg_div_ofNat {n : ℕ} (hn : 0 < n) (hfit : n < 2 ^ 128) {x : Float} (hx : Zero.zero ≤ x) :
    Zero.zero ≤ x / Float.ofNat n := by
  obtain ⟨nx, px⟩ := nonneg_iff.1 hx
  have pn := lt_of_lt_of_le zero_lt_one (one_le_worth_ofNat hn)
  obtain ⟨hdiv, hw⟩ := number_div nx px (number_ofNat n).1 pn (worth_ofNat_lt_top hfit)
  rw [nonneg_iff, hw]
  exact ⟨hdiv, rounded_nonneg (EReal.div_nonneg px pn.le)⟩

theorem UpTo.mul {i j : ℕ} (hij : i + j < 971) {x y : Float} (hx : UpTo (2 ^ i) x) (hy : UpTo (2 ^ j) y) :
    UpTo (2 ^ (i + j)) (x * y) := by
  obtain ⟨hn, hw⟩ := number_mul hx.1 hy.1 hx.2.1 hy.2.1 hx.lt_top hy.lt_top
  have hprod : 0 ≤ worth x * worth y := mul_nonneg hx.2.1 hy.2.1
  refine ⟨hn, hw ▸ rounded_nonneg hprod, ?_⟩
  rw [hw]
  refine rounded_le_two_pow hprod hij ?_
  calc worth x * worth y ≤ ((2 ^ i : ℝ) : EReal) * ((2 ^ j : ℝ) : EReal) :=
        mul_le_mul hx.2.2 hy.2.2 hy.2.1 (by exact_mod_cast (by positivity : (0 : ℝ) ≤ 2 ^ i))
    _ = ((2 ^ (i + j) : ℝ) : EReal) := by rw [← EReal.coe_mul, ← pow_add]

/-- A product of numbers that are at least one is at least one. -/
theorem one_le_worth_mul {i j : ℕ} {x y : Float} (hx : UpTo (2 ^ i) x) (hy : UpTo (2 ^ j) y) (ox : 1 ≤ worth x)
    (oy : 1 ≤ worth y) : 1 ≤ worth (x * y) := by
  rw [(number_mul hx.1 hy.1 hx.2.1 hy.2.1 hx.lt_top hy.lt_top).2]
  have hone := rounded_two_pow (j := 0) (by decide)
  rw [pow_zero, EReal.coe_one] at hone
  rw [← hone]
  refine rounded_mono zero_le_one ?_
  calc (1 : EReal) = 1 * 1 := (one_mul 1).symm
    _ ≤ worth x * worth y := mul_le_mul ox oy zero_le_one hx.2.1

/-- The quotient of two counts, the larger one divided, is at least one and at most the larger one. -/
theorem upTo_div_ofNat {d n j : ℕ} (hd : 0 < d) (hdn : d ≤ n) (hj : j < 128) (hn : n < 2 ^ j) :
    UpTo (2 ^ j) (Float.ofNat n / Float.ofNat d) ∧ 1 ≤ worth (Float.ofNat n / Float.ofNat d) := by
  have od := one_le_worth_ofNat hd
  have pd : 0 < worth (Float.ofNat d) := lt_of_lt_of_le zero_lt_one od
  have bn : UpTo (2 ^ j) (Float.ofNat n) := upTo_ofNat (by omega) hn.le
  have fd : worth (Float.ofNat d) < ⊤ := lt_of_le_of_lt (worth_ofNat_mono hdn) bn.lt_top
  obtain ⟨hq, hw⟩ := number_div bn.1 bn.2.1 (number_ofNat d).1 pd fd
  have hquot : 1 ≤ worth (Float.ofNat n) / worth (Float.ofNat d) := by
    rw [EReal.le_div_iff_mul_le pd fd.ne, one_mul]
    exact worth_ofNat_mono hdn
  have hone := rounded_two_pow (j := 0) (by decide)
  rw [pow_zero, EReal.coe_one] at hone
  have hlow : 1 ≤ worth (Float.ofNat n / Float.ofNat d) := by
    rw [hw, ← hone]
    exact rounded_mono zero_le_one hquot
  refine ⟨⟨hq, zero_le_one.trans hlow, ?_⟩, hlow⟩
  rw [hw]
  refine rounded_le_two_pow (zero_le_one.trans hquot) (by omega) ?_
  rw [EReal.div_le_iff_le_mul pd fd.ne]
  calc worth (Float.ofNat n) ≤ ((2 ^ j : ℝ) : EReal) := bn.2.2
    _ ≤ worth (Float.ofNat d) * ((2 ^ j : ℝ) : EReal) :=
        le_mul_of_one_le_left (by exact_mod_cast (by positivity : (0 : ℝ) ≤ 2 ^ j)) od

/-! ## Sums -/

theorem UpTo.add {k j : ℕ} (hk : k + 1 < 2 ^ 53) (hj : j < 971) {x y : Float} (hx : UpTo (k * 2 ^ j) x)
    (hy : UpTo (2 ^ j) y) : UpTo ((k + 1 : ℕ) * 2 ^ j) (x + y) := by
  obtain ⟨hn, hw⟩ := number_add hx.1 hy.1 hx.2.1 hy.2.1
  have hsum : 0 ≤ worth x + worth y := add_nonneg hx.2.1 hy.2.1
  refine ⟨hn, hw ▸ rounded_nonneg hsum, ?_⟩
  rw [hw]
  refine rounded_le hsum hk hj ?_
  calc worth x + worth y ≤ ((k * 2 ^ j : ℝ) : EReal) + ((2 ^ j : ℝ) : EReal) := add_le_add hx.2.2 hy.2.2
    _ = (((k + 1 : ℕ) * 2 ^ j : ℝ) : EReal) := by rw [← EReal.coe_add, Nat.cast_add_one, add_one_mul]

/-- Adding numbers one by one adds one power of two to the bound for each. -/
theorem upTo_foldl {j : ℕ} (hj : j < 971) {xs : List Float} (h : ∀ x ∈ xs, UpTo (2 ^ j) x) {k : ℕ}
    (hk : k + xs.length < 2 ^ 53) {a : Float} (ha : UpTo (k * 2 ^ j) a) :
    UpTo ((k + xs.length : ℕ) * 2 ^ j) (xs.foldl (· + ·) a) := by
  induction xs generalizing a k with
  | nil => exact ha
  | cons x xs ih =>
    obtain ⟨hx, hxs⟩ := List.forall_mem_cons.1 h
    rw [List.length_cons] at hk
    rw [List.foldl_cons, List.length_cons, Nat.add_comm xs.length 1, ← Nat.add_assoc]
    exact ih hxs (by omega) (ha.add (by omega) hj hx)

/-- The sum of less than `2 ^ 53` numbers is at most their number times their bound. -/
theorem upTo_sum {j : ℕ} (hj : j < 971) {xs : List Float} (h : ∀ x ∈ xs, UpTo (2 ^ j) x) (hlength : xs.length < 2 ^ 53) :
    UpTo (xs.length * 2 ^ j) (Scalar.sum xs) := by
  cases xs with
  | nil =>
    have hzero : UpTo ((0 : ℕ) * 2 ^ j) Zero.zero := by
      rw [Nat.cast_zero, zero_mul]
      exact ⟨number_zero.1, number_zero.2.ge, number_zero.2.le⟩
    exact hzero
  | cons x xs =>
    obtain ⟨hx, hxs⟩ := List.forall_mem_cons.1 h
    rw [List.length_cons] at hlength ⊢
    have hstart : UpTo ((1 : ℕ) * 2 ^ j) x := by
      rw [Nat.cast_one, one_mul]
      exact hx
    have hsum := upTo_foldl hj hxs (by omega) hstart
    rwa [Nat.add_comm] at hsum

/-! ## Exact results -/

theorem zero_add_of_pos {x : Float} (h : Zero.zero < x) : Zero.zero + x = x := by
  obtain ⟨hx, px⟩ := pos_iff.1 h
  rcases unpacked_zero_add x with h0 | ⟨s, t, -, hzero⟩
  · exact eq_of_unpacked_eq h0
  · rw [worth, hzero] at px
    exact absurd px (lt_irrefl 0)

/-- A positive finite number divided by itself is one. -/
theorem div_self_of_finite {x : Float} (h : Zero.zero < x) (hf : x.isFinite = true) : x / x = One.one := by
  obtain ⟨hx, px⟩ := pos_iff.1 h
  have fx := lt_top_of_isFinite hx px.le hf
  have hworth := worth_div_self hx px fx
  refine eq_of_worth_eq (number_div hx px.le hx px fx).1 number_one.1 ?_ (hworth.trans number_one.2.symm)
  rw [hworth]
  exact zero_lt_one

end ToleranceClustering.Binary64
