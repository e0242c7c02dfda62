/-!
# Documents

A document as the clustering takes it: a caller's id and the terms of its text, already reduced to a normal form. A
raw document still has its text and waits for an analyzer.
-/

namespace ToleranceClustering

/-- The place of a document in the input. -/
abbrev Position := Nat

/-- A document ready for clustering. The text is for display alone. -/
structure Document where
  id : Nat
  tokens : List String
  text : Option String := none

/-- A document before tokenization; without a language code it is in the default language. -/
structure RawDocument where
  id : Nat
  text : String
  language : Option String := none

namespace Document

/-- The document in which each token occurs as often as is said, in the order given. -/
def ofCounts (id : Nat) (counts : List (String × Nat)) : Document where
  id := id
  tokens := counts.flatMap fun (token, n) => List.replicate n token

/-- The tokens that can be terms: an empty one is none. -/
def terms (d : Document) : List String := d.tokens.filter (· ≠ "")

end Document

end ToleranceClustering
