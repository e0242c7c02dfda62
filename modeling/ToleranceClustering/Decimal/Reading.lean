/-!
# Reading decimals

A number written as a decimal, with a sign, a point and an exponent where they are wanted, read as the binary64 number
nearest to it. The words for what is no finite number are read in letters of either case.
-/

namespace ToleranceClustering.Decimal

/-- The number that digits stand for. -/
def digitsValue (ds : List Char) : Nat := ds.foldl (fun n d => 10 * n + (d.toNat - '0'.toNat)) 0

/-- The number `digits * 10 ^ exponent`. More than 400 places from the point it is zero or infinite. -/
def scaled (digits : List Char) (exponent : Int) : Float :=
  let m := digitsValue digits
  let places := exponent + ((digits.dropWhile (· = '0')).length : Int)
  if m = 0 ∨ places < -400 then 0.0
  else if 400 < places then 1.0 / 0.0
  else if 0 ≤ exponent then Float.ofScientific m false exponent.toNat
  else Float.ofScientific m true (-exponent).toNat

/-- The exponent after its letter: digits, with a sign or without. -/
def exponent? : List Char → Option Int
  | '-' :: ds => if !ds.isEmpty && ds.all Char.isDigit then some (-(digitsValue ds : Int)) else none
  | '+' :: ds => if !ds.isEmpty && ds.all Char.isDigit then some (digitsValue ds : Int) else none
  | ds => if !ds.isEmpty && ds.all Char.isDigit then some (digitsValue ds : Int) else none

/-- A decimal without a sign: digits before or after the point, or on both sides, and an exponent if there is one. -/
def unsigned? (cs : List Char) : Option Float := do
  let whole := cs.takeWhile Char.isDigit
  let (places, rest) := match cs.dropWhile Char.isDigit with
    | '.' :: rest => (rest.takeWhile Char.isDigit, rest.dropWhile Char.isDigit)
    | rest => ([], rest)
  guard !(whole ++ places).isEmpty
  let exponent ← match rest with
    | [] => some 0
    | 'e' :: rest => exponent? rest
    | 'E' :: rest => exponent? rest
    | _ => none
  return scaled (whole ++ places) (exponent - places.length)

/-- A number without a sign. -/
def magnitude? (cs : List Char) : Option Float :=
  match String.ofList (cs.map Char.toLower) with
  | "nan" => some (0.0 / 0.0)
  | "inf" => some (1.0 / 0.0)
  | "infinity" => some (1.0 / 0.0)
  | _ => unsigned? cs

/-- The number that a text stands for, if it is one. -/
def read? (s : String) : Option Float :=
  match s.toList with
  | '-' :: cs => (magnitude? cs).map fun x => -x
  | '+' :: cs => magnitude? cs
  | cs => magnitude? cs

end ToleranceClustering.Decimal
