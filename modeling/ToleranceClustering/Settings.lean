import ToleranceClustering.Seed
import ToleranceClustering.Similarity
import ToleranceClustering.Weighting

/-!
# Settings

The parameters of a clustering run. Each has a range; a value outside it is refused before anything is computed, and a
value that is not a number lies in no range.
-/

namespace ToleranceClustering

/-- The parameters of a run. -/
structure Settings (α : Type) where
  /-- The similarity from which terms tolerate each other, in `(0, 1]`. -/
  tolerance : α
  /-- The membership from which a document is covered, in `[0, 1]`. -/
  minMembership : α
  /-- The overlap from which candidates merge, in `[0, 1]`. -/
  mergeThreshold : α
  similarity : Similarity
  weighting : Weighting
  /-- The share of documents beyond which a term is left out, in `(0, 1]`. -/
  maxTermShare : α
  seeds : SeedPolicy α
  /-- The size below which a candidate is dropped, at least one. -/
  minClusterSize : Nat
  /-- The number of label terms, at least one. -/
  maxLabels : Nat

namespace Settings

variable {α : Type} [Scalar α]

/-- The settings lie in their ranges; the first that does not is the failure. -/
def check (s : Settings α) : Except Failure Unit := do
  Failure.unless (Scalar.withinAbove 0 1 s.tolerance) "tolerance_threshold" "must be in (0, 1]"
  Failure.unless (Scalar.within 0 1 s.minMembership) "min_membership" "must be in [0, 1]"
  Failure.unless (Scalar.within 0 1 s.mergeThreshold) "merge_threshold" "must be in [0, 1]"
  Failure.unless (Scalar.withinAbove 0 1 s.maxTermShare) "max_word_df" "must be in (0, 1]"
  Failure.unless (s.minClusterSize != 0) "min_cluster_size" "must be at least 1"
  Failure.unless (s.maxLabels != 0) "max_labels" "must be at least 1"
  s.seeds.check

/-- The usual seed policy: terms in two documents or more, the 32 heaviest. -/
def standardSeeds : SeedPolicy Float := ⟨2, 1.0, some 32⟩

/-- The usual settings. -/
def standard : Settings Float where
  tolerance := 0.5
  minMembership := 0.3
  mergeThreshold := 0.5
  similarity := .geometricMean
  weighting := .frequency
  maxTermShare := 1.0
  seeds := standardSeeds
  minClusterSize := 2
  maxLabels := 3

end Settings

end ToleranceClustering
