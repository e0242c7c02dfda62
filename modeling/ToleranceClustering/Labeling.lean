import ToleranceClustering.Topic

/-!
# Labels

A labeler picks the terms that describe a topic. The one of the library credits each term with its share of the
topic's cohesion, so that the terms chosen explain most of why the documents belong together.
-/

namespace ToleranceClustering

/-- A way to choose the label terms of a topic: at most so many, best first. -/
abbrev Labeler (α : Type) [Scalar α] := Topic α → Corpus α → Lexicon → Nat → List TermId

namespace Labeler

variable {α : Type} [Scalar α]

/-- Whether a term may describe a topic: it is one of the topic's terms, or the topic has none. -/
def admits (topic : Topic α) (t : TermId) : Bool := topic.terms.isEmpty || topic.terms.contains t

/-- Adds, for every admitted term of a document, its share of the document's weight. -/
def credit (topic : Topic α) (acc : Table α) (v : TermVector α) : Table α :=
  if v.total ≤ 0 then acc
  else (v.entries.filter fun e => admits topic e.1).foldl
    (fun acc e => TermVector.accumulate acc (e.1, e.2 / v.total)) acc

/-- The contribution of each term to a topic: the sum, over the topic's documents in their order, of the term's
share of the document's weight. -/
def contributions (topic : Topic α) (c : Corpus α) : Table α :=
  (topic.positions.map c.vector).foldl (credit topic) Table.empty

/-- The larger contribution first, then the smaller text, then the smaller number; a number without a text counts as
the empty text. -/
def strongerFirst (lex : Lexicon) (a b : TermId × α) : Ordering :=
  ((Scalar.order b.2 a.2).then (compare ((lex.term? a.1).getD "") ((lex.term? b.1).getD ""))).then (compare a.1 b.1)

/-- The labels chosen from the contributions of some terms, which may come in any order. -/
def chosen (lex : Lexicon) (limit : Nat) (contributions : List (TermId × α)) : List TermId :=
  ((Sorting.sort (strongerFirst lex) (contributions.filter fun e => decide (0 < e.2))).take limit).map Prod.fst

/-- The terms with the largest positive contributions. -/
def byCohesion : Labeler α := fun topic c lex limit => chosen lex limit (contributions topic c).entries

/-- The contributions to a topic, none if one of its positions is outside the corpus. -/
def contributions? (topic : Topic α) (c : Corpus α) : Option (Table α) := do
  let vectors ← c.vectorsAt? topic.positions
  return vectors.foldl (credit topic) Table.empty

/-- The terms with the largest positive contributions, none if a position of the topic is outside the corpus. -/
def byCohesion? (topic : Topic α) (c : Corpus α) (lex : Lexicon) (limit : Nat) : Option (List TermId) := do
  let contributed ← contributions? topic c
  return chosen lex limit contributed.entries

/-- A choice of one's own, cut off at the number of labels asked for. -/
def ofFunction (choose : Labeler α) : Labeler α := fun topic c lex limit =>
  (choose topic c lex limit).take limit

end Labeler

end ToleranceClustering
