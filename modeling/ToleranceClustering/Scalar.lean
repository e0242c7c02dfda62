/-!
# Scalars

The arithmetic in which weights, similarities and memberships are computed. Every definition of the library that
computes with such numbers takes them from a `Scalar`, and fixes the order in which it adds, so that one and the same
definition runs on binary64 (`Float`) and can be reasoned about over any other arithmetic, exact or monotone.

A `Scalar` carries operations only. Laws are hypotheses of the theorems that need them: binary64 addition, for one, is
not associative.
-/

namespace ToleranceClustering

/-- Numbers that a clustering can be computed with. `order` is a total order that agrees with `<` where `<` decides,
and settles the rest (zeros of either sign, values that are not numbers). -/
class Scalar (α : Type) extends Zero α, One α, NatCast α, Add α, Sub α, Mul α, Div α, LT α, LE α where
  decidableLT : DecidableLT α
  decidableLE : DecidableLE α
  sqrt : α → α
  log : α → α
  isFinite : α → Bool
  order : α → α → Ordering

namespace Scalar

variable {α : Type} [Scalar α]

instance : DecidableLT α := decidableLT

instance : DecidableLE α := decidableLE

/-- The smaller of two numbers; the second when the first is not below it. -/
def min (x y : α) : α := if x < y then x else y

/-- The larger of two numbers; the first when the second is not above it. -/
def max (x y : α) : α := if x < y then y else x

/-- The number itself between `lo` and `hi`, the nearer end outside. What compares with neither end is kept. -/
def clamp (lo hi x : α) : α := if x < lo then lo else if hi < x then hi else x

/-- The sum from left to right, begun with the first number. Nothing sums to zero, the positive one: a sum that is begun
with the negative zero instead differs from this one in nothing but the sign of an empty sum. -/
def sum : List α → α
  | [] => 0
  | x :: xs => xs.foldl (· + ·) x

/-- Whether `x` is a number at all: one that compares with itself. -/
def isNumber (x : α) : Bool := decide (x ≤ x)

/-- Whether numbers added to `acc` from left to right come to something that is no number, before any of them is none
itself: infinities of opposite signs meet. -/
def cancelsFrom (acc : α) : List α → Bool
  | [] => false
  | x :: xs => isNumber acc && isNumber x && (!isNumber (acc + x) || cancelsFrom (acc + x) xs)

/-- Whether the sum of a list is undefined although its first numbers are not: infinities of opposite signs meet. -/
def cancels : List α → Bool
  | [] => false
  | x :: xs => cancelsFrom x xs

/-- Whether `x` lies in `[lo, hi]`. -/
def within (lo hi x : α) : Bool := decide (lo ≤ x) && decide (x ≤ hi)

/-- Whether `x` lies in `(lo, hi]`. -/
def withinAbove (lo hi x : α) : Bool := decide (lo < x) && decide (x ≤ hi)

/-- The place of a binary64 value in the total order, read off its bits: magnitude for a clear sign bit, and mirrored
below zero for a set one, so that the negative zero stands just below the positive one. -/
def binary64Rank (x : Float) : Int :=
  let bits := x.toBits.toNat
  let half := Nat.pow 2 63
  if bits < half then bits else -((bits : Int) - half) - 1

end Scalar

/-- Binary64 arithmetic. -/
instance : Scalar Float where
  zero := 0.0
  one := 1.0
  natCast := Float.ofNat
  decidableLT := Float.decLt
  decidableLE := Float.decLe
  sqrt := Float.sqrt
  log := Float.log
  isFinite := Float.isFinite
  order x y := compare (Scalar.binary64Rank x) (Scalar.binary64Rank y)

end ToleranceClustering
