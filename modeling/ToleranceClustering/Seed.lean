import ToleranceClustering.Sorting
import ToleranceClustering.ToleranceSpace

/-!
# Seed terms

Only some terms start a cluster: those in enough, but not too many, documents, and of these the heaviest.
-/

namespace ToleranceClustering

/-- Which terms are seeds. Without a limit every eligible term is one. -/
structure SeedPolicy (α : Type) where
  minDocuments : Nat
  maxShare : α
  limit : Option Nat

namespace SeedPolicy

variable {α : Type} [Scalar α]

/-- Every term is a seed. -/
def all : SeedPolicy α := ⟨1, 1, none⟩

/-- Whether the settings lie in their ranges. -/
def check (p : SeedPolicy α) : Except Failure Unit := do
  Failure.unless (Scalar.withinAbove 0 1 p.maxShare) "max_document_frequency" "must be in (0, 1]"
  Failure.unless (p.limit != some 0) "max_seeds" "must be at least 1 when set"

/-- Whether a term in `frequency` of `documents` documents may be a seed. -/
def eligible (p : SeedPolicy α) (documents frequency : Nat) : Bool :=
  decide (p.minDocuments ≤ frequency) && decide ((frequency : α) ≤ p.maxShare * (documents : α))

end SeedPolicy

/-- The heavier term first; of terms equally heavy, the one with the smaller number. -/
def heavierFirst {α : Type} [Scalar α] (a b : TermId × α) : Ordering :=
  (Scalar.order b.2 a.2).then (compare a.1 b.1)

namespace ToleranceSpace

variable {α : Type} [Scalar α]

/-- The terms that may be seeds, ascending, each with its weight over the whole corpus. -/
def eligibleSeeds (s : ToleranceSpace α) (c : Corpus α) (p : SeedPolicy α) : List (TermId × α) :=
  (s.terms.toList.filter fun t => p.eligible c.size (s.documentFrequency t)).map fun t =>
    (t, c.aggregateWeight t (s.postings t))

/-- The seeds under a policy, ascending: the eligible terms, or the heaviest of them where the policy sets a limit. -/
def selectSeeds (s : ToleranceSpace α) (c : Corpus α) (p : SeedPolicy α) : List TermId :=
  let eligible := s.eligibleSeeds c p
  let chosen := match p.limit with
    | some k => if k < eligible.length then (Sorting.sort heavierFirst eligible).take k else eligible
    | none => eligible
  Ascending.ofList (chosen.map Prod.fst)

end ToleranceSpace

end ToleranceClustering
