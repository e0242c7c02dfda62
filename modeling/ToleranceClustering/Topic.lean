import ToleranceClustering.Agglomeration

/-!
# Topics

What a run returns: topics, best first, which may share documents; the rest, that is the documents in no topic; and
the merges that were made.
-/

namespace ToleranceClustering

/-- A document in a group. In a topic its membership is that in the topic's terms; in the rest it is the best that the
document reached in any topic. -/
structure Member (α : Type) where
  document : Nat
  position : Position
  membership : α

/-- A group of documents. -/
structure Topic (α : Type) where
  /-- By ascending position. -/
  members : List (Member α)
  /-- The seeds of the candidates that were merged into the topic, ascending. -/
  seeds : List TermId
  /-- The union of the seeds' classes, ascending. -/
  terms : List TermId
  cohesion : α
  score : α
  /-- The terms that describe the topic, best first. -/
  labels : List TermId
  /-- The text that describes the topic. -/
  label : String

namespace Topic

variable {α : Type}

/-- The number of documents. -/
def size (t : Topic α) : Nat := t.members.length

/-- Whether there is no document. -/
def isEmpty (t : Topic α) : Bool := t.members.isEmpty

/-- The ids of the documents. -/
def documents (t : Topic α) : List Nat := t.members.map Member.document

/-- The positions of the documents, ascending. -/
def positions (t : Topic α) : List Position := t.members.map Member.position

/-- Whether a document with this id is in the group. -/
def contains (t : Topic α) (id : Nat) : Bool := t.documents.contains id

/-- The texts of the label terms; a term without a text is left out. -/
def labelTerms (t : Topic α) (lex : Lexicon) : List String := t.labels.filterMap lex.term?

variable [Scalar α]

/-- The group of the documents that are in no topic: it has no terms, no score and a label of its own. -/
def rest (members : List (Member α)) : Topic α where
  members := members
  seeds := []
  terms := []
  cohesion := 0
  score := 0
  labels := []
  label := "Other Topics"

end Topic

/-- The result of a run. -/
structure Clustering (α : Type) where
  /-- Best first. -/
  topics : List (Topic α)
  /-- The documents in no topic. -/
  rest : Topic α
  /-- In the order they were made. -/
  merges : List (MergeStep α)

namespace Clustering

variable {α : Type}

/-- The result for no documents. -/
def empty [Scalar α] : Clustering α := ⟨[], Topic.rest [], []⟩

/-- The places of the topics that hold a document with this id. -/
def topicsOf (r : Clustering α) (id : Nat) : List Nat :=
  (r.topics.zipIdx.filter fun p => p.1.contains id).map Prod.snd

end Clustering

end ToleranceClustering
