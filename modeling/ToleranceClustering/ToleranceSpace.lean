import ToleranceClustering.Corpus
import ToleranceClustering.Failure
import ToleranceClustering.Incidence

/-!
# The tolerance space

Two terms tolerate each other when they occur together and their similarity reaches a threshold. The relation is
reflexive and symmetric, but not transitive: the tolerance class of a term is the term with everything it tolerates,
and classes overlap.

`ToleranceSpace.build` finds the relation sparsely, through the postings. `Corpus.Tolerant` is its plain definition,
pair by pair over the whole vocabulary.

The relation is a graph without directions: its nodes are the terms under their local numbers, its edges the tolerant
pairs with their similarities. It is kept in rows, each pair once, at its earlier term. An edge is found from either end
in the row of the earlier one (`related`, `similarity?`), the neighbours of a term are the earlier terms whose row has it
and those of its own row (`classLists`), and the edges are counted row by row (`relationSize`). `RelationGraph` says what
a graph does that takes its edges one by one, and that it says the same as the rows, if it has room for them.
-/

namespace ToleranceClustering

/-- The class of a term: the term and every term tolerant to it, ascending. -/
structure ToleranceClass where
  term : TermId
  members : List TermId
deriving DecidableEq, Repr

namespace ToleranceClass

/-- Whether a term belongs to the class. -/
def contains (c : ToleranceClass) (t : TermId) : Bool := c.members.contains t

/-- The number of members. -/
def size (c : ToleranceClass) : Nat := c.members.length

/-- Whether every member of `c` is one of `d`. -/
def isSubset (c d : ToleranceClass) : Bool := c.members.all d.contains

end ToleranceClass

/-- The tolerance relation over the vocabulary of a corpus. Terms are numbered locally by their place in `terms`;
`rows` holds, for each, the later terms it tolerates. -/
structure ToleranceSpace (α : Type) [Scalar α] where
  threshold : α
  terms : Array TermId
  incidence : Incidence
  rows : Array (List (Nat × α))
  classes : Array (List Nat)

namespace Corpus

variable {α : Type} [Scalar α]

/-- The terms of a corpus, ascending. -/
def vocabulary (c : Corpus α) : List TermId :=
  c.vectors.foldl (fun seen v => Ascending.union v.terms seen) []

/-- The positions of the documents that hold a term, ascending, found by looking at every document. -/
def holders (c : Corpus α) (t : TermId) : List Position :=
  (List.range c.size).filter fun pos => (c.vector pos).contains t

/-- The number of documents that hold both terms, found by looking at every document. -/
def jointHolders (c : Corpus α) (a b : TermId) : Nat :=
  ((List.range c.size).filter fun pos => (c.vector pos).contains a && (c.vector pos).contains b).length

/-- The similarity of two terms of a corpus, the one with the smaller number first. -/
def similarity (c : Corpus α) (f : Measure α) (a b : TermId) : α :=
  if a ≤ b then f (c.jointHolders a b) (c.holders a).length (c.holders b).length
  else f (c.jointHolders a b) (c.holders b).length (c.holders a).length

/-- Two terms tolerate each other: one and the same term of the vocabulary, or two that occur together and are similar
enough. -/
def Tolerant (c : Corpus α) (τ : α) (f : Measure α) (a b : TermId) : Prop :=
  (a = b ∧ a ∈ c.vocabulary) ∨ (a ≠ b ∧ 0 < c.jointHolders a b ∧ τ ≤ c.similarity f a b)

end Corpus

namespace ToleranceSpace

variable {α : Type} [Scalar α]

/-- Whether the row of the earlier of two local terms holds the later one. -/
def related (rows : Array (List (Nat × α))) (i j : Nat) : Bool :=
  ((rows.getD (Nat.min i j) []).lookup (Nat.max i j)).isSome

/-- For each local term, the earlier terms whose row holds it, ascending. -/
def earlier (rows : List (List (Nat × α))) : Array (List Nat) :=
  Incidence.invert rows.length 0 (rows.map fun row => row.map Prod.fst)

/-- The local members of each local term's class, ascending: the earlier terms whose row holds it, the term itself,
and the terms of its own row. -/
def classLists (rows : List (List (Nat × α))) : List (List Nat) :=
  let before := earlier rows
  rows.zipIdx.map fun (row, i) => before.getD i [] ++ i :: row.map Prod.fst

/-- The tolerance space of a corpus at threshold `τ`, which has to lie in `(0, 1]`. Documents without terms contribute
nothing. -/
def build (c : Corpus α) (τ : α) (f : Measure α) : Except Failure (ToleranceSpace α) := do
  Failure.unless (Scalar.withinAbove 0 1 τ) "tolerance_threshold" "must be in (0, 1]"
  let terms := c.vocabulary
  let incidence := Incidence.ofDocuments terms.length (c.vectors.map fun v => v.terms.map terms.idxOf)
  let rows := incidence.rows τ f
  return {
    threshold := τ
    terms := terms.toArray
    incidence
    rows := rows.toArray
    classes := (classLists rows).toArray }

/-- The number of terms. -/
def termCount (s : ToleranceSpace α) : Nat := s.terms.size

/-- The number of tolerant pairs of distinct terms. -/
def relationSize (s : ToleranceSpace α) : Nat := s.rows.foldl (fun n row => n + row.length) 0

/-- The local number of a term. -/
def index? (s : ToleranceSpace α) (t : TermId) : Option Nat := s.terms.idxOf? t

/-- The term of a local number. -/
def termAt (s : ToleranceSpace α) (i : Nat) : TermId := s.terms.getD i 0

/-- The class at a local number. -/
def classAt (s : ToleranceSpace α) (i : Nat) : ToleranceClass where
  term := s.termAt i
  members := (s.classes.getD i []).map s.termAt

/-- The class of a term of the vocabulary. -/
def class? (s : ToleranceSpace α) (t : TermId) : Option ToleranceClass := (s.index? t).map s.classAt

/-- All classes, in term order. -/
def allClasses (s : ToleranceSpace α) : List ToleranceClass := (List.range s.termCount).map s.classAt

/-- The tolerant pairs with their similarities, the earlier term first, in ascending order. -/
def edges (s : ToleranceSpace α) : List (TermId × TermId × α) :=
  s.rows.toList.zipIdx.flatMap fun (row, i) => row.map fun (j, x) => (s.termAt i, s.termAt j, x)

/-- Whether two terms tolerate each other. Every term of the vocabulary tolerates itself. -/
def tolerant (s : ToleranceSpace α) (a b : TermId) : Bool :=
  match s.index? a, s.index? b with
  | some i, some j => i == j || related s.rows i j
  | _, _ => false

/-- The similarity of two terms that tolerate each other, one for a term with itself. -/
def similarity? (s : ToleranceSpace α) (a b : TermId) : Option α :=
  match s.index? a, s.index? b with
  | some i, some j => if i = j then some 1 else (s.rows.getD (Nat.min i j) []).lookup (Nat.max i j)
  | _, _ => none

/-- The positions of the documents that hold a term, ascending. -/
def postings (s : ToleranceSpace α) (t : TermId) : List Position :=
  match s.index? t with
  | some i => s.incidence.postingsOf i
  | none => []

/-- In how many documents a term is. -/
def documentFrequency (s : ToleranceSpace α) (t : TermId) : Nat := (s.postings t).length

/-- In how many documents two terms are together. -/
def cooccurrence (s : ToleranceSpace α) (a b : TermId) : Nat :=
  match s.index? a, s.index? b with
  | some i, some j => s.incidence.cooccurrence i j
  | _, _ => 0

end ToleranceSpace

end ToleranceClustering
