/-!
# Durations

A span of time in nanoseconds, and its text: the largest unit that it fills (`s`, `ms`, `µs`, `ns`) with as many
decimal places as are needed.
-/

namespace ToleranceClustering

/-- A span of time. -/
structure Duration where
  nanoseconds : Nat
deriving DecidableEq, Repr

namespace Duration

/-- The span of whole milliseconds. -/
def ofMilliseconds (n : Nat) : Duration := ⟨n * 1000000⟩

/-- The span of seconds and nanoseconds together, unless it has 2 ^ 64 seconds or more. -/
def ofSeconds? (seconds nanoseconds : Nat) : Option Duration :=
  if seconds + nanoseconds / 1000000000 < 18446744073709551616 then some ⟨seconds * 1000000000 + nanoseconds⟩
  else none

/-- The whole milliseconds of a span. -/
def milliseconds (d : Duration) : Nat := d.nanoseconds / 1000000

/-- The digits of `n` after a decimal point, `places` of them, without the zeros at the end. -/
def fraction (places n : Nat) : List Char :=
  let digits := Nat.toDigits 10 n
  let padded := List.replicate (places - digits.length) '0' ++ digits
  (padded.reverse.dropWhile (· = '0')).reverse

/-- A number of nanoseconds in a unit that is `10 ^ places` of them. -/
def inUnit (places : Nat) (unit : String) (n : Nat) : String :=
  let whole := toString (n / Nat.pow 10 places)
  match fraction places (n % Nat.pow 10 places) with
  | [] => whole ++ unit
  | rest => whole ++ "." ++ String.ofList rest ++ unit

/-- The text of a span: in seconds from one second on, else in the largest smaller unit that it fills. -/
def text (d : Duration) : String :=
  let n := d.nanoseconds
  if 1000000000 ≤ n then inUnit 9 "s" n
  else if 1000000 ≤ n then inUnit 6 "ms" n
  else if 1000 ≤ n then inUnit 3 "µs" n
  else toString n ++ "ns"

end Duration

end ToleranceClustering
