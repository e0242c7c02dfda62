import ToleranceClustering.Scalar

/-!
# Co-occurrence similarity

How alike two terms are, from the number of documents that hold both and the numbers that hold each. For exact
counts the built-in measures are nested: Jaccard below the harmonic mean, that below the geometric mean, that below
the minimum, all between zero and one.
-/

namespace ToleranceClustering

/-- A similarity of two terms: from the number of documents that hold both, and of those that hold the first and the
second. -/
abbrev Measure (α : Type) := Nat → Nat → Nat → α

/-- The built-in measures, named for what the shared count is divided by. -/
inductive Similarity where
  /-- The square root of the product of the two counts. -/
  | geometricMean
  /-- The smaller of the two counts. -/
  | minimum
  /-- Half the sum of the two counts. -/
  | harmonicMean
  /-- The number of documents that hold either term. -/
  | jaccard
deriving DecidableEq, Repr

namespace Similarity

variable {α : Type} [Scalar α]

/-- The quotient of a measure, before it is cut off at one. -/
def quotient (s : Similarity) (shared a b : α) : α :=
  match s with
  | geometricMean => shared / Scalar.sqrt (a * b)
  | minimum => shared / Scalar.min a b
  | harmonicMean => ((2 : Nat) : α) * shared / (a + b)
  | jaccard => shared / (a + b - shared)

/-- The measure itself: zero where nothing is shared or a term is in no document, and one at most. -/
def measure (s : Similarity) : Measure α := fun shared a b =>
  if shared = 0 ∨ a = 0 ∨ b = 0 then 0
  else Scalar.min (s.quotient (shared : α) (a : α) (b : α)) 1

end Similarity

end ToleranceClustering
