import Mathlib
import ToleranceClustering.Proofs.Binary64.Arithmetic
import ToleranceClustering.Proofs.Laws

/-!
# The laws of binary64

The arithmetic that clusterings run on keeps the laws of rounded arithmetic: its order is that of the numbers it stands
for, and its operations round the exact result, which keeps the order.
-/

namespace ToleranceClustering.Binary64

open Float.Model (Format UnpackedFloat)

/-! ## Operations on numbers of the format -/

theorem unpacked_div (x y : Float) :
    unpacked (x / y) = stored (UnpackedFloat.div Format.binary64 (unpacked x) (unpacked y)) :=
  rfl

theorem stands_unpacked {x : Float} (h : IsNumber x) : Stands (unpacked x) (worth x) := ⟨h, rfl⟩

theorem number_add {x y : Float} (hx : IsNumber x) (hy : IsNumber y) (px : 0 ≤ worth x) (py : 0 ≤ worth y) :
    IsNumber (x + y) ∧ worth (x + y) = rounded (worth x + worth y) :=
  stands_add (proper_unpacked x) (proper_unpacked y) (stands_unpacked hx) (stands_unpacked hy) px py

theorem rounded_worth {x : Float} (hx : IsNumber x) (px : 0 ≤ worth x) : rounded (worth x) = worth x :=
  rounded_of_stands (proper_unpacked x) (stands_unpacked hx) px

/-- Dividing by a positive number that is not infinite. -/
theorem number_div {x y : Float} (hx : IsNumber x) (px : 0 ≤ worth x) (hy : IsNumber y) (py : 0 < worth y)
    (fy : worth y < ⊤) : IsNumber (x / y) ∧ worth (x / y) = rounded (worth x / worth y) := by
  unfold IsNumber worth at *
  rw [unpacked_div]
  rcases cases_of_nonneg ⟨hy, rfl⟩ py.le with ⟨-, h⟩ | ⟨s, -, h⟩ | ⟨n, f, hn, h, hv⟩
  · exact absurd fy (by rw [h]; exact lt_irrefl ⊤)
  · exact absurd py (by rw [h]; exact lt_irrefl 0)
  · rw [hv, h]
    exact stands_div ⟨hx, rfl⟩ px hn f

/-- What is divided by infinity is not positive. -/
theorem lt_top_of_div_pos {x y : Float} (hy : IsNumber y) (py : 0 ≤ worth y) (h : 0 < worth (x / y)) : worth y < ⊤ := by
  rcases cases_of_nonneg (stands_unpacked hy) py with ⟨hu, -⟩ | ⟨s, -, hv⟩ | ⟨n, f, hn, -, hv⟩
  · have hz : worth (x / y) = 0 := by
      rw [worth, unpacked_div]
      exact value_div_vanishing (Or.inr ⟨_, hu⟩)
    rw [hz] at h
    exact absurd h (lt_irrefl 0)
  · rw [hv]
    exact EReal.zero_lt_top
  · rw [hv]
    exact EReal.coe_lt_top _

/-! ## Natural numbers -/

theorem number_ofNat (n : ℕ) : IsNumber (Float.ofNat n) ∧ worth (Float.ofNat n) = rounded ((n : ℝ) : EReal) :=
  stands_ofNat n

theorem worth_ofNat_nonneg (n : ℕ) : 0 ≤ worth (Float.ofNat n) := by
  rw [(number_ofNat n).2]
  exact rounded_nonneg (by exact_mod_cast n.cast_nonneg (α := ℝ))

theorem rounded_two_pow {j : ℕ} (hj : j < 1024) : rounded ((2 ^ j : ℝ) : EReal) = ((2 ^ j : ℝ) : EReal) := by
  rw [rounded_coe, grid_two_pow, cap, if_pos (pow_lt_pow_right₀ (by norm_num) hj)]

theorem one_le_worth_ofNat {n : ℕ} (hn : 0 < n) : 1 ≤ worth (Float.ofNat n) := by
  have h1 : rounded ((2 ^ 0 : ℝ) : EReal) ≤ rounded ((n : ℝ) : EReal) :=
    rounded_mono (by positivity) (by rw [pow_zero]; exact_mod_cast hn)
  rw [rounded_two_pow (by decide), pow_zero] at h1
  rw [(number_ofNat n).2]
  exact h1

theorem worth_ofNat_mono {m n : ℕ} (h : m ≤ n) : worth (Float.ofNat m) ≤ worth (Float.ofNat n) := by
  rw [(number_ofNat m).2, (number_ofNat n).2]
  exact rounded_mono (by exact_mod_cast m.cast_nonneg (α := ℝ)) (by exact_mod_cast h)

theorem worth_ofNat_lt_top {n : ℕ} (hn : n < 2 ^ 128) : worth (Float.ofNat n) < ⊤ := by
  have h1 : rounded ((n : ℝ) : EReal) ≤ rounded ((2 ^ 128 : ℝ) : EReal) :=
    rounded_mono (by positivity) (by exact_mod_cast hn.le)
  rw [rounded_two_pow (by decide)] at h1
  rw [(number_ofNat n).2]
  exact lt_of_le_of_lt h1 (EReal.coe_lt_top _)

/-! ## The laws -/

theorem number_zero : IsNumber (Zero.zero : Float) ∧ worth (Zero.zero : Float) = 0 := by
  have h : unpacked (Zero.zero : Float) = .zero .positive := rfl
  unfold IsNumber worth
  rw [h]
  exact ⟨nofun, rfl⟩

theorem number_one : IsNumber (One.one : Float) ∧ worth (One.one : Float) = 1 := by
  have h : unpacked (One.one : Float) = .finite .positive (2 ^ 52) (-52) (by decide) := rfl
  unfold IsNumber worth
  rw [h, value_finite_positive]
  refine ⟨nofun, ?_⟩
  norm_num

/-- A number that is not below zero, and what it stands for. -/
theorem nonneg_iff {x : Float} : Zero.zero ≤ x ↔ IsNumber x ∧ 0 ≤ worth x := by
  rw [le_iff, number_zero.2]
  exact ⟨fun h => h.2, fun h => ⟨number_zero.1, h⟩⟩

theorem pos_iff {x : Float} : Zero.zero < x ↔ IsNumber x ∧ 0 < worth x := by
  rw [lt_iff, number_zero.2]
  exact ⟨fun h => h.2, fun h => ⟨number_zero.1, h⟩⟩

/-- Adding to zero changes nothing but the sign of a zero. -/
theorem unpacked_zero_add (x : Float) :
    unpacked (Zero.zero + x) = unpacked x ∨ ∃ s t, unpacked (Zero.zero + x) = .zero s ∧ unpacked x = .zero t := by
  have h : unpacked (Zero.zero + x) = stored (UnpackedFloat.add Format.binary64 (.zero .positive) (unpacked x)) := rfl
  have hp := proper_unpacked x
  rw [h]
  revert hp
  cases unpacked x with
  | notANumber => exact fun _ => Or.inl stored_notANumber
  | infinity s => exact fun _ => Or.inl (stored_infinity s)
  | zero s =>
    intro _
    refine Or.inr ⟨if s == .positive then s else .positive, s, ?_, rfl⟩
    cases s with
    | negative => exact stored_zero _
    | positive => exact stored_zero _
  | finite s m e hm => exact fun hp => Or.inl (stored_finite hp)

theorem pos_of_zero_add {x : Float} (h : Zero.zero < Zero.zero + x) : Zero.zero < x := by
  obtain ⟨hn, hpos⟩ := pos_iff.1 h
  unfold IsNumber at hn
  unfold worth at hpos
  rcases unpacked_zero_add x with h0 | ⟨s, t, h0, -⟩
  · rw [h0] at hn hpos
    exact pos_iff.2 ⟨hn, hpos⟩
  · rw [h0] at hpos
    exact absurd hpos (lt_irrefl 0)

theorem isFinite_of_zero_add {x : Float} (h : Float.isFinite (Zero.zero + x) = true) : Float.isFinite x = true := by
  have hf : (unpacked (Zero.zero + x)).isFinite = true := h
  show (unpacked x).isFinite = true
  rcases unpacked_zero_add x with h0 | ⟨s, t, -, hx⟩
  · rwa [h0] at hf
  · rw [hx]
    rfl

/-- A number divided by itself is one, unless it is infinite. -/
theorem worth_div_self {x : Float} (hx : IsNumber x) (px : 0 < worth x) (fx : worth x < ⊤) :
    worth (x / x) = 1 := by
  rw [(number_div hx px.le hx px fx).2,
    EReal.div_self (ne_of_gt (lt_of_lt_of_le EReal.bot_lt_zero px.le)) fx.ne px.ne']
  have h := rounded_two_pow (j := 0) (by decide)
  rwa [pow_zero] at h

theorem not_number_div_self {x : Float} (hx : IsNumber x) (tx : worth x = ⊤) : ¬IsNumber (x / x) := by
  rcases cases_of_nonneg (stands_unpacked hx) (tx ▸ le_top) with ⟨hu, -⟩ | ⟨s, -, hv⟩ | ⟨n, f, hn, -, hv⟩
  · intro h
    rw [IsNumber, unpacked_div, hu] at h
    exact h stored_notANumber
  · rw [tx] at hv
    exact absurd hv EReal.top_ne_zero
  · rw [tx] at hv
    exact absurd hv.symm (EReal.coe_ne_top _)

/-! ## Counts and positive numbers -/

/-- A number is packed from what is unpacked from it. -/
theorem pack_unpacked (x : Float) : UnpackedFloat.pack Format.binary64 (unpacked x) = x.toModel.toBits.toBitVec := by
  have hpack := @UnpackedFloat.pack_unpack Format.binary64 x.toModel.toBits.toBitVec (by decide)
  refine hpack.trans ?_
  split
  · rename_i hnan
    obtain ⟨hexponent, hmantissa⟩ := of_decide_eq_true hnan
    exact (x.toModel.valid.eq_packedNaN hexponent hmantissa).symm
  · rfl

/-- Numbers are told apart by what is unpacked from them. -/
theorem eq_of_unpacked_eq {x y : Float} (h : unpacked x = unpacked y) : x = y := by
  have hbits := pack_unpacked x
  rw [h, pack_unpacked y] at hbits
  obtain ⟨⟨bits, _⟩⟩ := x
  obtain ⟨⟨bits', _⟩⟩ := y
  obtain rfl := UInt64.toBitVec_inj.1 hbits.symm
  rfl

/-- Canonical numbers that stand for the same have the same mantissa and exponent. -/
theorem Canonical.inj {m n : ℕ} {e f : ℤ} (hm : Canonical m e) (hn : Canonical n f)
    (h : (m * 2 ^ e : ℝ) = n * 2 ^ f) : m = n ∧ e = f := by
  have hcompare := compare_magnitudes hm hn
  rw [compare_eq_iff_eq.2 h, Ordering.then_eq_eq, compare_eq_iff_eq, compare_eq_iff_eq] at hcompare
  exact hcompare.symm

/-- Positive numbers that stand for the same are the same. -/
theorem eq_of_worth_eq {x y : Float} (hx : IsNumber x) (hy : IsNumber y) (hpos : 0 < worth x) (h : worth x = worth y) :
    x = y := by
  apply eq_of_unpacked_eq
  have px := proper_unpacked x
  have py := proper_unpacked y
  rcases cases_of_nonneg (stands_unpacked hx) hpos.le with ⟨hu, hv⟩ | ⟨s, -, hv⟩ | ⟨m, e, hm, hu, hv⟩
  · rcases cases_of_nonneg (stands_unpacked hy) (h ▸ hpos.le) with ⟨hw, -⟩ | ⟨s, -, hw⟩ | ⟨n, f, hn, -, hw⟩
    · rw [hu, hw]
    · rw [h, hw] at hv
      exact absurd hv.symm EReal.top_ne_zero
    · rw [h, hw] at hv
      exact absurd hv (EReal.coe_ne_top _)
  · exact absurd hv hpos.ne'
  · rcases cases_of_nonneg (stands_unpacked hy) (h ▸ hpos.le) with ⟨-, hw⟩ | ⟨s, -, hw⟩ | ⟨n, f, hn, hw, hw'⟩
    · rw [h, hw] at hv
      exact absurd hv.symm (EReal.coe_ne_top _)
    · exact absurd (h.trans hw) hpos.ne'
    · rw [hu] at px
      rw [hw] at py
      rw [h, hw'] at hv
      obtain ⟨rfl, rfl⟩ := px.1.inj py.1 (EReal.coe_injective hv).symm
      rw [hu, hw]

/-- One times a number that is not negative stands for the number. -/
theorem worth_one_mul {x : Float} (hx : IsNumber x) (px : 0 ≤ worth x) :
    IsNumber (One.one * x) ∧ worth (One.one * x) = worth x := by
  have hone : unpacked (One.one : Float) = .finite .positive (2 ^ 52) (-52) (by decide) := rfl
  have hmul : unpacked (One.one * x) = stored (UnpackedFloat.mul Format.binary64 (unpacked One.one) (unpacked x)) := rfl
  have hself := rounded_worth hx px
  unfold IsNumber worth at *
  rw [hmul, hone]
  rcases cases_of_nonneg ⟨hx, rfl⟩ px with ⟨hu, hv⟩ | ⟨s, hu, hv⟩ | ⟨n, f, hn, hu, hv⟩
  · have hinfinite : ∀ m e hm, UnpackedFloat.mul Format.binary64 (.finite .positive m e hm) (.infinity .positive) =
        .infinity .positive := fun _ _ _ => rfl
    rw [hu, hinfinite, stored_infinity]
    exact ⟨nofun, rfl⟩
  · have hzero : ∀ m e hm, UnpackedFloat.mul Format.binary64 (.finite .positive m e hm) (.zero s) =
        .zero (.positive * s) := fun _ _ _ => rfl
    rw [hu, hzero, stored_zero]
    exact ⟨nofun, rfl⟩
  · have ha : Ample (2 ^ 52 * n) (-52 + f) := by
      left
      rw [Nat.mul_comm, ← Nat.shiftLeft_eq, log2_shiftLeft hn]
      omega
    have hstands := stands_mul_finite (by decide) hn (-52) f ha
    rw [hu] at hself ⊢
    rw [value_finite_positive] at hself ⊢
    have hfactor : (((2 ^ 52 : ℕ) : ℝ) * 2 ^ (-52 : ℤ)) * (n * 2 ^ f) = n * 2 ^ f := by norm_num
    rw [hfactor, hself] at hstands
    exact hstands

/-! ## Instances -/

instance : Scalar.Ordered Float where
  lt_irrefl x h := lt_irrefl (worth x) (lt_iff.1 h).2.2
  le_of_lt h := by
    obtain ⟨hx, hy, hlt⟩ := lt_iff.1 h
    exact le_iff.2 ⟨hx, hy, hlt.le⟩
  le_trans h h' := by
    obtain ⟨hx, -, hle⟩ := le_iff.1 h
    obtain ⟨-, hz, hle'⟩ := le_iff.1 h'
    exact le_iff.2 ⟨hx, hz, hle.trans hle'⟩
  lt_of_lt_of_le h h' := by
    obtain ⟨hx, -, hlt⟩ := lt_iff.1 h
    obtain ⟨-, hz, hle⟩ := le_iff.1 h'
    exact lt_iff.2 ⟨hx, hz, hlt.trans_le hle⟩
  lt_of_le_of_lt h h' := by
    obtain ⟨hx, -, hle⟩ := le_iff.1 h
    obtain ⟨-, hz, hlt⟩ := lt_iff.1 h'
    exact lt_iff.2 ⟨hx, hz, hle.trans_lt hlt⟩
  left_number h := le_iff.2 ⟨(le_iff.1 h).1, (le_iff.1 h).1, le_refl _⟩
  right_number h := le_iff.2 ⟨(le_iff.1 h).2.1, (le_iff.1 h).2.1, le_refl _⟩
  le_or_lt {x y} h h' := by
    have hx := (le_iff.1 h).1
    have hy := (le_iff.1 h').1
    rcases le_or_gt (worth x) (worth y) with hle | hlt
    · exact Or.inl (le_iff.2 ⟨hx, hy, hle⟩)
    · exact Or.inr (lt_iff.2 ⟨hy, hx, hlt⟩)
  zero_lt_one := pos_iff.2 ⟨number_one.1, lt_of_lt_of_eq zero_lt_one number_one.2.symm⟩

instance : Scalar.Rounded Float where
  add_le_add_right hx hxy hz := by
    obtain ⟨nx, px⟩ := nonneg_iff.1 hx
    obtain ⟨-, ny, hle⟩ := le_iff.1 hxy
    obtain ⟨nz, pz⟩ := nonneg_iff.1 hz
    obtain ⟨nxz, hxz⟩ := number_add nx nz px pz
    obtain ⟨nyz, hyz⟩ := number_add ny nz (px.trans hle) pz
    refine le_iff.2 ⟨nxz, nyz, ?_⟩
    rw [hxz, hyz]
    exact rounded_mono (add_nonneg px pz) (add_le_add_left hle _)
  le_add_right hx hy := by
    obtain ⟨nx, px⟩ := nonneg_iff.1 hx
    obtain ⟨ny, py⟩ := nonneg_iff.1 hy
    obtain ⟨n, h⟩ := number_add nx ny px py
    refine le_iff.2 ⟨nx, n, ?_⟩
    rw [h, ← rounded_worth nx px]
    exact rounded_mono px (by rw [rounded_worth nx px]; exact le_add_of_nonneg_right py)
  le_add_left hx hy := by
    obtain ⟨nx, px⟩ := nonneg_iff.1 hx
    obtain ⟨ny, py⟩ := nonneg_iff.1 hy
    obtain ⟨n, h⟩ := number_add nx ny px py
    refine le_iff.2 ⟨ny, n, ?_⟩
    rw [h, ← rounded_worth ny py]
    exact rounded_mono py (by rw [rounded_worth ny py]; exact le_add_of_nonneg_left px)
  div_le_div hx hxy ht hpos := by
    obtain ⟨nx, px⟩ := nonneg_iff.1 hx
    obtain ⟨-, ny, hle⟩ := le_iff.1 hxy
    obtain ⟨nt, pt⟩ := pos_iff.1 ht
    have ft := lt_top_of_div_pos nt pt.le (pos_iff.1 hpos).2
    obtain ⟨nxt, hxt⟩ := number_div nx px nt pt ft
    obtain ⟨nyt, hyt⟩ := number_div ny (px.trans hle) nt pt ft
    refine le_iff.2 ⟨nxt, nyt, ?_⟩
    rw [hxt, hyt]
    exact rounded_mono (EReal.div_nonneg px pt.le) (EReal.div_le_div_right_of_nonneg pt.le hle)
  not_pos_zero_div x h := by
    have hz : worth ((Zero.zero : Float) / x) = 0 := by
      rw [worth, unpacked_div]
      exact value_div_vanishing (Or.inl ⟨_, rfl⟩)
    exact lt_irrefl 0 (lt_of_lt_of_eq (pos_iff.1 h).2 hz)
  not_div_self_lt_one {n} hn h := by
    obtain ⟨hx, -, hlt⟩ := lt_iff.1 h
    have px : 0 < worth (Float.ofNat n) := lt_of_lt_of_le (by norm_num) (one_le_worth_ofNat hn)
    rcases (le_top (a := worth (Float.ofNat n))).lt_or_eq with fx | tx
    · have h1 := worth_div_self (number_ofNat n).1 px fx
      exact lt_irrefl 1 (h1.symm.trans_lt (lt_of_lt_of_eq hlt number_one.2))
    · exact not_number_div_self (number_ofNat n).1 tx hx
  pos_of_zero_add h := pos_of_zero_add h
  isFinite_of_zero_add h := isFinite_of_zero_add h
  div_natCast_number {m n} hmn hn hfit := by
    have px : 0 < worth (Float.ofNat n) := lt_of_lt_of_le (by norm_num) (one_le_worth_ofNat hn)
    obtain ⟨hd, -⟩ := number_div (number_ofNat m).1 (worth_ofNat_nonneg m) (number_ofNat n).1 px
      (worth_ofNat_lt_top hfit)
    exact le_iff.2 ⟨hd, hd, le_refl _⟩

instance : Scalar.Normal Float where
  eq_of_le_of_le hpos hle hle' := by
    obtain ⟨hx, hpos⟩ := pos_iff.1 hpos
    obtain ⟨-, hy, hle⟩ := le_iff.1 hle
    exact eq_of_worth_eq hx hy hpos (le_antisymm hle (le_iff.1 hle').2.2)
  natCast_le_one_mul {m n} h := by
    obtain ⟨hn, hmul⟩ := worth_one_mul (number_ofNat n).1 (worth_ofNat_nonneg n)
    refine le_iff.2 ⟨(number_ofNat m).1, hn, le_trans ?_ hmul.symm.le⟩
    exact worth_ofNat_mono h

end ToleranceClustering.Binary64
