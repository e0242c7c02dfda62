import ToleranceClustering.Ascending
import ToleranceClustering.Scalar
import ToleranceClustering.Similarity

/-!
# Incidence and co-occurrence

Which terms are in which documents, held both ways: the terms of each document, and the documents of each term (its
postings). Terms are numbered locally here, from zero without gaps.

`Incidence.row` finds the later terms that one term is tolerant to by walking its postings, and counts in a scratch
array that it leaves as it found it. Only terms that occur together are ever touched.
-/

namespace ToleranceClustering

/-- The terms of each document and the documents of each term, both ascending. -/
structure Incidence where
  documents : Array (List Nat)
  postings : Array (List Nat)

namespace Incidence

variable {α : Type} [Scalar α]

/-- The postings of `terms` terms over documents of which the first stands at position `pos`. -/
def invert (terms : Nat) (pos : Nat) : List (List Nat) → Array (List Nat)
  | [] => Array.replicate terms []
  | doc :: docs => doc.foldl (fun postings i => postings.modify i (pos :: ·)) (invert terms (pos + 1) docs)

/-- The incidence of `terms` terms and documents given by their terms. -/
def ofDocuments (terms : Nat) (docs : List (List Nat)) : Incidence where
  documents := docs.toArray
  postings := invert terms 0 docs

/-- The terms of a document. -/
def termsOf (inc : Incidence) (doc : Nat) : List Nat := inc.documents.getD doc []

/-- The documents of a term. -/
def postingsOf (inc : Incidence) (i : Nat) : List Nat := inc.postings.getD i []

/-- The number of terms. -/
def termCount (inc : Incidence) : Nat := inc.postings.size

/-- How many documents hold a term. -/
def frequency (inc : Incidence) (i : Nat) : Nat := (inc.postingsOf i).length

/-- How many documents hold both terms. -/
def cooccurrence (inc : Incidence) (i j : Nat) : Nat := Ascending.sharedCount (inc.postingsOf i) (inc.postingsOf j)

/-- Counts one more shared document for the term `j`, if it comes after `i`, and notes it when it is met first. -/
def touch (i : Nat) (state : List Nat × Array Nat) (j : Nat) : List Nat × Array Nat :=
  if j ≤ i then state
  else (if state.2.getD j 0 = 0 then j :: state.1 else state.1, state.2.modify j (· + 1))

/-- The later terms met in the documents of `i`, and the scratch array with the number of documents shared with
each. -/
def countShared (inc : Incidence) (i : Nat) (scratch : Array Nat) : List Nat × Array Nat :=
  (inc.postingsOf i).foldl (fun state doc => (inc.termsOf doc).foldl (touch i) state) ([], scratch)

/-- Takes the count of a met term out of the scratch array, and keeps the term if its similarity reaches `τ`. -/
def collect (inc : Incidence) (τ : α) (f : Measure α) (i : Nat) (scratch : Array Nat) :
    List Nat → List (Nat × α) × Array Nat
  | [] => ([], scratch)
  | j :: js =>
    let s := f (scratch.getD j 0) (inc.frequency i) (inc.frequency j)
    let rest := inc.collect τ f i (scratch.modify j fun _ => 0) js
    (if τ ≤ s then (j, s) :: rest.1 else rest.1, rest.2)

/-- The later terms that `i` is tolerant to, ascending, each with its similarity, and the scratch array afterwards.
The array is to hold zeros only, and does so again. -/
def row (inc : Incidence) (τ : α) (f : Measure α) (i : Nat) (scratch : Array Nat) : List (Nat × α) × Array Nat :=
  let (met, counted) := inc.countShared i scratch
  inc.collect τ f i counted (Ascending.ofList met.reverse)

/-- The rows of some terms in the order given, all counted in one scratch array. -/
def rowsOf (inc : Incidence) (τ : α) (f : Measure α) (scratch : Array Nat) :
    List Nat → List (List (Nat × α)) × Array Nat
  | [] => ([], scratch)
  | i :: is =>
    let (r, scratch) := inc.row τ f i scratch
    let (rs, scratch) := inc.rowsOf τ f scratch is
    (r :: rs, scratch)

/-- A scratch array for the terms: zeros only. -/
def scratch (inc : Incidence) : Array Nat := Array.replicate inc.termCount 0

/-- The rows of all terms. -/
def rows (inc : Incidence) (τ : α) (f : Measure α) : List (List (Nat × α)) :=
  (inc.rowsOf τ f inc.scratch (List.range inc.termCount)).1

end Incidence

end ToleranceClustering
