import ToleranceClustering.Scalar

/-!
# Term weighting

How the count of a term in a document becomes its weight there.
-/

namespace ToleranceClustering

/-- The policies. -/
inductive Weighting where
  /-- The count itself. -/
  | frequency
  /-- The count times the natural logarithm of the inverse share of documents; a term of every document weighs
  nothing. -/
  | logInverse
  /-- The count times the inverse share of documents. -/
  | linearInverse
deriving DecidableEq, Repr

namespace Weighting

variable {α : Type} [Scalar α]

/-- The weight of a term that occurs `count` times in one document and in `spread` of `documents` documents. -/
def weight (w : Weighting) (count spread documents : Nat) : α :=
  if count = 0 ∨ spread = 0 then 0
  else match w with
    | frequency => (count : α)
    | logInverse => (count : α) * Scalar.log ((documents : α) / (spread : α))
    | linearInverse => (count : α) * ((documents : α) / (spread : α))

end Weighting

end ToleranceClustering
