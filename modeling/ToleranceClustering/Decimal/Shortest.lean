/-!
# Shortest decimals

The shortest decimal that reads back as a given binary64 number, and among several the nearest. The search is exact: a
number is decoded into `m * 2 ^ q`, and a decimal reads back if it lies among the real numbers that round to it.
-/

namespace ToleranceClustering.Decimal

/-- A finite number `m * 2 ^ q` that is not negative. -/
structure Binary where
  m : Nat
  q : Int
  /-- The number below is half as far away as the number above. -/
  narrowBelow : Bool

/-- The magnitude of the finite number with these bits. -/
def Binary.ofBits (bits : Nat) : Binary :=
  let exponent : Nat := bits / Nat.pow 2 52 % Nat.pow 2 11
  let fraction : Nat := bits % Nat.pow 2 52
  if exponent = 0 then ⟨fraction, -1074, false⟩
  else ⟨Nat.pow 2 52 + fraction, (exponent : Int) - 1075, fraction == 0 && decide (1 < exponent)⟩

/-- The decimal `digits * 10 ^ exponent`. -/
structure Scaled where
  digits : Nat
  exponent : Int
deriving DecidableEq, Repr

/-- Compares `a * 10 ^ i` with `n * 2 ^ j`. -/
def compareScaled (a : Nat) (i : Int) (n : Nat) (j : Int) : Ordering :=
  compare (a * Nat.pow 10 i.toNat * Nat.pow 2 (-j).toNat) (n * Nat.pow 2 j.toNat * Nat.pow 10 (-i).toNat)

/-- Whether a decimal lies among the real numbers that round to `x`: between the halves of the gaps to both
neighbours, the ends included exactly for an even `m`. -/
def Binary.readsBack (x : Binary) (d : Scaled) : Bool :=
  let low := compareScaled d.digits d.exponent (if x.narrowBelow then 4 * x.m - 1 else 4 * x.m - 2) (x.q - 2)
  let high := compareScaled d.digits d.exponent (4 * x.m + 2) (x.q - 2)
  let even := x.m % 2 == 0
  (low == .gt || (even && low == .eq)) && (high == .lt || (even && high == .eq))

/-- The least `k` with `x < 10 ^ k`, for a positive `x`: near what the binary logarithm says. -/
def Binary.magnitude (x : Binary) : Int :=
  let near := ((x.m.log2 : Int) + x.q) * 30103 / 100000
  ([near - 1, near, near + 1].find? fun k => compareScaled 1 k x.m x.q == .gt).getD (near + 2)

/-- The numerator and the denominator of `x / 10 ^ g`. -/
def Binary.onGrid (x : Binary) (g : Int) : Nat × Nat :=
  (x.m * Nat.pow 2 x.q.toNat * Nat.pow 10 (-g).toNat, Nat.pow 2 (-x.q).toNat * Nat.pow 10 g.toNat)

/-- The multiple of `10 ^ g` that reads back as `x`, the nearer one of two, and the upper one of two equally near. -/
def Binary.onGrid? (x : Binary) (g : Int) : Option Scaled :=
  let (num, den) := x.onGrid g
  let below : Scaled := ⟨num / den, g⟩
  let above : Scaled := ⟨num / den + 1, g⟩
  match x.readsBack below, x.readsBack above with
  | true, true => some (if 2 * (num % den) < den then below else above)
  | true, false => some below
  | false, true => some above
  | false, false => none

/-- The number itself as a decimal. -/
def Binary.exact (x : Binary) : Scaled :=
  if 0 ≤ x.q then ⟨x.m * Nat.pow 2 x.q.toNat, 0⟩ else ⟨x.m * Nat.pow 5 (-x.q).toNat, x.q⟩

/-- The shortest decimal that reads back as a positive `x`: the first grid, from coarse to fine, with a point that
does. -/
def Binary.shortest (x : Binary) : Scaled :=
  let k := x.magnitude
  ((List.range 17).findSome? fun n : Nat => x.onGrid? (k - ((n : Int) + 1))).getD x.exact

/-- The digits without the zeros at their end, and the exponent of the first one. -/
def Scaled.leading (d : Scaled) : List Char × Int :=
  let digits := Nat.toDigits 10 d.digits
  ((digits.reverse.dropWhile (· = '0')).reverse, d.exponent + (digits.length : Int) - 1)

/-- The text of a decimal by its digits and the exponent `e` of the first one: positional with at least one place
for `e` from -4 to 15, and with an exponent otherwise. -/
def layout (digits : List Char) (e : Int) : String :=
  if e < -4 ∨ 16 ≤ e then
    let mantissa := match digits with
      | d :: r :: rest => d :: '.' :: r :: rest
      | ds => ds
    String.ofList mantissa ++ "e" ++ toString e
  else if e < 0 then "0." ++ String.ofList (List.replicate (-e - 1).toNat '0' ++ digits)
  else
    let whole := e.toNat + 1
    let padded := digits ++ List.replicate (whole - digits.length) '0'
    let rest := padded.drop whole
    String.ofList (padded.take whole) ++ "." ++ (if rest.isEmpty then "0" else String.ofList rest)

/-- The text of a number: its shortest decimal, with a point or an exponent. -/
def text (x : Float) : String :=
  let bits := x.toBits.toNat
  let sign := if Nat.pow 2 63 ≤ bits then "-" else ""
  if x.isNaN then "NaN"
  else if bits % Nat.pow 2 63 = 0 then sign ++ "0.0"
  else if bits / Nat.pow 2 52 % Nat.pow 2 11 = 2047 then sign ++ "inf"
  else
    let (digits, e) := (Binary.ofBits (bits % Nat.pow 2 63)).shortest.leading
    sign ++ layout digits e

end ToleranceClustering.Decimal
