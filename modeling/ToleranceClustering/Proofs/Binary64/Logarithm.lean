import ToleranceClustering.Proofs.Binary64.Bounds
import ToleranceClustering.Weighting

/-!
# Binary64 with a given logarithm

The logarithm of binary64 comes from outside, and nothing can be computed about it here. `Binary64 log` is the arithmetic of
`Float` with a function in its place, which has the same laws; `Binary64 Float.log` is the arithmetic that runs. What the
theorems need to know of the function is little (`IsLogarithm`): with it all weights of counts that a machine can hold are
finite (`upTo_weight`), and those that involve no logarithm are positive (`weight_pos`).
-/

namespace ToleranceClustering

/-- The numbers of binary64, to be computed with under the logarithm `log`. -/
def Binary64 (_log : Float → Float) : Type := Float

namespace Binary64

variable {log : Float → Float}

instance : Scalar (Binary64 log) := { (instScalarFloat : Scalar Float) with log := log }

/-- With the logarithm of `Float` it is the arithmetic of `Float`. -/
example : (instScalar : Scalar (Binary64 Float.log)) = instScalarFloat := rfl

instance : Scalar.Ordered (Binary64 log) where
  lt_irrefl := Scalar.Ordered.lt_irrefl (α := Float)
  le_of_lt := Scalar.Ordered.le_of_lt (α := Float)
  le_trans := Scalar.Ordered.le_trans (α := Float)
  lt_of_lt_of_le := Scalar.Ordered.lt_of_lt_of_le (α := Float)
  lt_of_le_of_lt := Scalar.Ordered.lt_of_le_of_lt (α := Float)
  left_number := Scalar.Ordered.left_number (α := Float)
  right_number := Scalar.Ordered.right_number (α := Float)
  le_or_lt := Scalar.Ordered.le_or_lt (α := Float)
  zero_lt_one := Scalar.Ordered.zero_lt_one (α := Float)

instance : Scalar.Rounded (Binary64 log) where
  add_le_add_right := Scalar.Rounded.add_le_add_right (α := Float)
  le_add_right := Scalar.Rounded.le_add_right (α := Float)
  le_add_left := Scalar.Rounded.le_add_left (α := Float)
  div_le_div := Scalar.Rounded.div_le_div (α := Float)
  not_pos_zero_div := Scalar.Rounded.not_pos_zero_div (α := Float)
  not_div_self_lt_one := Scalar.Rounded.not_div_self_lt_one (α := Float)
  pos_of_zero_add := Scalar.Rounded.pos_of_zero_add (α := Float)
  isFinite_of_zero_add := Scalar.Rounded.isFinite_of_zero_add (α := Float)
  div_natCast_number := Scalar.Rounded.div_natCast_number (α := Float)

/-- What is known of a logarithm from one upwards: it is zero at one, never negative, and never above its argument. -/
structure IsLogarithm (log : Float → Float) : Prop where
  one : Scalar.log (1 : Binary64 log) = 0
  bounds : ∀ x : Binary64 log, 1 ≤ x → 0 ≤ Scalar.log x ∧ Scalar.log x ≤ x

/-! ## Weights -/

variable {w : Weighting} {count spread n : ℕ}

/-- A weight of counts that fit a machine word is a number that is not negative, and finite. -/
theorem upTo_weight (hlog : w = .logInverse → IsLogarithm log) (hcount : count < 2 ^ 64) (hspread : 0 < spread)
    (hle : spread ≤ n) (hn : n < 2 ^ 64) : UpTo (2 ^ 128) (w.weight count spread n : Binary64 log) := by
  have hc : UpTo (2 ^ 64) (Float.ofNat count) := upTo_ofNat (by decide) hcount.le
  obtain ⟨hratio, hone⟩ := upTo_div_ofNat hspread hle (by decide : 64 < 128) hn
  have hpow : ((2 : ℝ) ^ 64) ≤ 2 ^ 128 := pow_le_pow_right₀ (by norm_num) (by decide)
  unfold Weighting.weight
  split
  · exact ⟨number_zero.1, number_zero.2.ge, number_zero.2.le.trans (by exact_mod_cast (by positivity : (0 : ℝ) ≤ 2 ^ 128))⟩
  · cases w with
    | frequency => exact hc.mono hpow
    | linearInverse => exact hc.mul (by decide) hratio
    | logInverse =>
      obtain ⟨h₀, h₁⟩ := (hlog rfl).bounds (n / spread : Binary64 log)
        (le_iff.2 ⟨number_one.1, hratio.1, number_one.2.le.trans hone⟩)
      obtain ⟨hl, pl⟩ := nonneg_iff.1 h₀
      have hlogarithm : UpTo (2 ^ 64) (log (Float.ofNat n / Float.ofNat spread)) :=
        ⟨hl, pl, (le_iff.1 h₁).2.2.trans hratio.2.2⟩
      exact hc.mul (by decide) hlogarithm

/-- A term weighs something unless a logarithm is taken. -/
theorem weight_pos (hw : w ≠ .logInverse) (hpos : 0 < count) (hcount : count < 2 ^ 64) (hspread : 0 < spread)
    (hle : spread ≤ n) (hn : n < 2 ^ 64) : 0 < (w.weight count spread n : Binary64 log) := by
  have hc : UpTo (2 ^ 64) (Float.ofNat count) := upTo_ofNat (by decide) hcount.le
  have oc := one_le_worth_ofNat hpos
  unfold Weighting.weight
  rw [if_neg (by omega)]
  cases w with
  | frequency => exact pos_iff.2 ⟨hc.1, lt_of_lt_of_le zero_lt_one oc⟩
  | linearInverse =>
    obtain ⟨hratio, hone⟩ := upTo_div_ofNat hspread hle (by decide : 64 < 128) hn
    exact pos_iff.2 ⟨(hc.mul (by decide) hratio).1, lt_of_lt_of_le zero_lt_one (one_le_worth_mul hc hratio oc hone)⟩
  | logInverse => exact absurd rfl hw

/-- Under a logarithm a term of every document weighs nothing. -/
theorem not_weight_everywhere_pos (hlog : IsLogarithm log) (hcount : count < 2 ^ 64) (hn : n < 2 ^ 64) :
    ¬0 < (Weighting.logInverse.weight count n n : Binary64 log) := by
  unfold Weighting.weight
  split
  · exact Scalar.Ordered.lt_irrefl 0
  · rename_i hpos
    have bn : UpTo (2 ^ 64) (Float.ofNat n) := upTo_ofNat (by decide) hn.le
    have hc : UpTo (2 ^ 64) (Float.ofNat count) := upTo_ofNat (by decide) hcount.le
    have hself : (n : Binary64 log) / (n : Binary64 log) = 1 :=
      div_self_of_finite (pos_iff.2 ⟨bn.1, lt_of_lt_of_le zero_lt_one (one_le_worth_ofNat (by omega))⟩) bn.isFinite
    show ¬0 < (count : Binary64 log) * Scalar.log ((n : Binary64 log) / (n : Binary64 log))
    rw [hself, hlog.one]
    intro h
    have hprod := (number_mul hc.1 number_zero.1 hc.2.1 number_zero.2.ge hc.lt_top
      (number_zero.2 ▸ EReal.zero_lt_top)).2
    rw [number_zero.2, mul_zero, rounded_zero] at hprod
    exact lt_irrefl 0 (lt_of_lt_of_eq (pos_iff.1 h).2 hprod)

theorem zero_add_eq {x : Binary64 log} (h : 0 < x) : 0 + x = x := zero_add_of_pos h

end Binary64

end ToleranceClustering
