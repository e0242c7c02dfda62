import ToleranceClustering.Candidate

/-!
# Ranking

Candidates with many documents that lie squarely inside their terms come first.
-/

namespace ToleranceClustering

/-- The figures of a candidate: its number of documents, their mean membership, the product of both, and whether
memberships of opposite infinities leave the mean undefined. -/
structure Score (α : Type) where
  size : Nat
  cohesion : α
  score : α
  undefined : Bool

namespace Score

variable {α : Type} [Scalar α]

/-- The figures of a candidate. -/
def ofCandidate (c : Candidate α) : Score α where
  size := c.size
  cohesion := c.approximation.meanMembership
  score := (c.size : α) * c.approximation.meanMembership
  undefined := Scalar.cancels (c.approximation.members.map Prod.snd)

end Score

namespace Ranking

variable {α : Type} [Scalar α]

/-- The higher score first, an undefined one last; then the larger candidate; then the smaller first seed, and a
candidate without seeds before one with seeds. -/
def bestFirst (a b : Candidate α × Score α) : Ordering :=
  (((compare a.2.undefined b.2.undefined).then (Scalar.order b.2.score a.2.score)).then
    (compare b.2.size a.2.size)).then (compare a.1.firstSeed? b.1.firstSeed?)

/-- The candidates with their figures, best first; candidates that compare equal keep their order. -/
def rank (cs : List (Candidate α)) : List (Candidate α × Score α) :=
  Sorting.sort bestFirst (cs.map fun c => (c, Score.ofCandidate c))

end Ranking

end ToleranceClustering
