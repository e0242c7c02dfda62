import ToleranceClustering.ToleranceSpace

/-!
# Upper approximations

The membership of a document in a set of terms is the share of its weight that lies on them. The upper approximation
of a term set holds the documents whose membership is positive and reaches a threshold.

`ToleranceSpace.approximate` looks only at documents found through the postings of the terms; `Corpus.approximate`
is the plain definition and looks at every document.
-/

namespace ToleranceClustering

/-- The share of a document's weight that lies on `terms`, between zero and one; zero for a document without terms. -/
def membership {α : Type} [Scalar α] (v : TermVector α) (terms : List TermId) : α :=
  if v.total ≤ 0 then 0
  else
    let inside := (v.entries.filter fun e => terms.contains e.1).map Prod.snd
    Scalar.clamp 0 1 (Scalar.sum inside / v.total)

/-- A term set and the documents it covers, each with its membership, by ascending position. -/
structure Approximation (α : Type) where
  terms : List TermId
  members : List (Position × α)

namespace Approximation

variable {α : Type}

/-- The number of documents covered. -/
def size (a : Approximation α) : Nat := a.members.length

/-- Whether no document is covered. -/
def isEmpty (a : Approximation α) : Bool := a.members.isEmpty

/-- The positions of the documents covered, ascending. -/
def positions (a : Approximation α) : List Position := a.members.map Prod.fst

/-- Whether the document at a position is covered. -/
def contains (a : Approximation α) (pos : Position) : Bool := a.positions.contains pos

variable [Scalar α]

/-- The mean membership of the documents covered; zero for none. -/
def meanMembership (a : Approximation α) : α :=
  if a.isEmpty then 0 else Scalar.sum (a.members.map Prod.snd) / (a.size : α)

/-- How much two document sets overlap: the number of documents in both, divided by the number in either. -/
def overlap (a b : Approximation α) : α :=
  let shared := Ascending.sharedCount a.positions b.positions
  let either := a.size + b.size - shared
  if either = 0 then 0 else (shared : α) / (either : α)

end Approximation

/-- The document at `pos` with its membership, if that is positive and reaches `μ`. -/
def Corpus.cover? {α : Type} [Scalar α] (c : Corpus α) (terms : List TermId) (μ : α) (pos : Position) :
    Option (Position × α) :=
  let m := membership (c.vector pos) terms
  if 0 < m ∧ μ ≤ m then some (pos, m) else none

/-- The upper approximation of a list of terms at threshold `μ`, by looking at every document. -/
def Corpus.approximate {α : Type} [Scalar α] (c : Corpus α) (terms : List TermId) (μ : α) : Approximation α where
  terms := Ascending.ofList terms
  members := (List.range c.size).filterMap (c.cover? (Ascending.ofList terms) μ)

namespace ToleranceSpace

variable {α : Type} [Scalar α]

/-- The positions of the documents that hold any of some terms, ascending. -/
def holders (s : ToleranceSpace α) (terms : List TermId) : List Position :=
  terms.foldr (fun t found => Ascending.union (s.postings t) found) []

/-- The upper approximation of a list of terms at threshold `μ`, by looking at the documents that hold one of them.
Terms outside the vocabulary stay in the term set and cover nothing. -/
def approximate (s : ToleranceSpace α) (c : Corpus α) (terms : List TermId) (μ : α) : Approximation α :=
  let terms := Ascending.ofList terms
  { terms, members := (s.holders terms).filterMap (c.cover? terms μ) }

/-- The class of a term, or the term alone outside the vocabulary. -/
def classTerms (s : ToleranceSpace α) (t : TermId) : List TermId :=
  match s.class? t with
  | some cls => cls.members
  | none => [t]

/-- The upper approximations of the classes of some seed terms, in their order. -/
def approximateSeeds (s : ToleranceSpace α) (c : Corpus α) (seeds : List TermId) (μ : α) : List (Approximation α) :=
  seeds.map fun t => s.approximate c (s.classTerms t) μ

end ToleranceSpace

end ToleranceClustering
