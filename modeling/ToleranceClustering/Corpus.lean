import ToleranceClustering.Document
import ToleranceClustering.Lexicon
import ToleranceClustering.TermVector
import ToleranceClustering.Weighting

/-!
# The corpus

The documents of one run as term vectors, by position. `Corpus.extract` counts the terms of every document, and
keeps of each document the terms that are not too widespread and whose weight is positive.
-/

namespace ToleranceClustering

/-- A document's id and its term vector. -/
structure IndexedDocument (α : Type) [Scalar α] where
  id : Nat
  vector : TermVector α

/-- The documents of one run, by position. -/
structure Corpus (α : Type) [Scalar α] where
  documents : Array (IndexedDocument α)

namespace Corpus

variable {α : Type} [Scalar α]

/-- The number of documents, those without terms included. -/
def size (c : Corpus α) : Nat := c.documents.size

/-- The term vectors, by position. -/
def vectors (c : Corpus α) : List (TermVector α) := c.documents.toList.map IndexedDocument.vector

/-- The term vector at a position, empty outside the corpus. -/
def vector (c : Corpus α) (pos : Position) : TermVector α :=
  (c.documents[pos]?.map IndexedDocument.vector).getD TermVector.empty

/-- The caller's id of the document at a position, zero outside the corpus. -/
def id (c : Corpus α) (pos : Position) : Nat := (c.documents[pos]?.map IndexedDocument.id).getD 0

/-- Whether the document at a position has no usable terms. -/
def isMalformed (c : Corpus α) (pos : Position) : Bool := (c.vector pos).isEmpty

/-- The positions of the documents without usable terms, ascending. -/
def malformed (c : Corpus α) : List Position := (List.range c.size).filter c.isMalformed

/-- The term vectors at some positions, in their order; none if a position is outside the corpus. -/
def vectorsAt? (c : Corpus α) (positions : List Position) : Option (List (TermVector α)) :=
  positions.mapM fun pos => c.documents[pos]?.map IndexedDocument.vector

/-- The sum of a term's weights over the documents at some positions, in their order. A position outside the corpus adds
nothing. -/
def aggregateWeight (c : Corpus α) (t : TermId) (positions : List Position) : α :=
  Scalar.sum (positions.filterMap fun pos => (c.vector pos).weight? t)

/-- The sum of a term's weights over the documents at some positions; none if a position is outside the corpus. -/
def aggregateWeight? (c : Corpus α) (t : TermId) (positions : List Position) : Option α := do
  let vectors ← c.vectorsAt? positions
  return Scalar.sum (vectors.filterMap fun v => v.weight? t)

end Corpus

/-- How a corpus is extracted: the weighting, and the share of documents beyond which a term is left out. -/
structure Extraction (α : Type) where
  weighting : Weighting
  maxShare : α

namespace Extraction

variable {α : Type} [Scalar α]

/-- The term counts of every document, its terms interned in reading order. -/
def countTerms (lex : Lexicon) : List Document → List Tally × Lexicon
  | [] => ([], lex)
  | d :: ds =>
    let (ts, lex) := lex.internAll d.terms
    let (counts, lex) := countTerms lex ds
    (Tally.empty.addAll ts :: counts, lex)

/-- In how many documents each term occurs. -/
def countDocuments (counts : List Tally) : Tally := counts.foldl (fun df c => df.addAll c.keys) Tally.empty

/-- The weight of a counted term of one document, unless it is in more documents than the share allows. -/
def weigh (e : Extraction α) (documents : Nat) (df : Tally) (entry : TermId × Nat) : Option (TermId × α) :=
  let spread := df.count entry.1
  if e.maxShare * (documents : α) < (spread : α) then none
  else some (entry.1, e.weighting.weight entry.2 spread documents)

/-- The corpus of some documents, and the lexicon after their terms were interned. Terms that are left out stay in the
lexicon. -/
def extract (e : Extraction α) (lex : Lexicon) (docs : List Document) : Corpus α × Lexicon :=
  let (counts, lex) := countTerms lex docs
  let df := countDocuments counts
  let vectors := counts.map fun c => TermVector.ofPairs (c.entries.filterMap (e.weigh docs.length df))
  (⟨(docs.zipWith (fun d v => ⟨d.id, v⟩) vectors).toArray⟩, lex)

end Extraction

end ToleranceClustering
