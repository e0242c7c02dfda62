import ToleranceClustering.Approximation
import ToleranceClustering.Sorting

/-!
# Cluster candidates

A candidate is the upper approximation of the classes of one or more seeds. The first candidates have one seed each
and are numbered in their order.
-/

namespace ToleranceClustering

/-- Seeds, ascending, and the approximation of their classes together. `id` is the place among the first candidates.
-/
structure Candidate (α : Type) where
  id : Nat
  seeds : List TermId
  approximation : Approximation α

namespace Candidate

variable {α : Type}

/-- The number of documents. -/
def size (c : Candidate α) : Nat := c.approximation.size

/-- The seed with the smallest number. -/
def firstSeed? (c : Candidate α) : Option TermId := c.seeds.head?

/-- By first seed, a candidate without seeds first; then the larger one first. -/
def bySeed (a b : Candidate α) : Ordering :=
  (compare a.firstSeed? b.firstSeed?).then (compare b.size a.size)

/-- The first candidates, numbered: one for each seed whose approximation has at least `minSize` documents, by
ascending seed. The shorter of the two lists ends the pairing. -/
def ofSeeds (seeds : List TermId) (approximations : List (Approximation α)) (minSize : Nat) : List (Candidate α) :=
  let large := (seeds.zip approximations).filter fun p => decide (minSize ≤ p.2.size)
  let ordered := Sorting.sort bySeed (large.map fun p => ⟨0, [p.1], p.2⟩)
  ordered.zipIdx.map fun (c, i) => { c with id := i }

end Candidate

end ToleranceClustering
