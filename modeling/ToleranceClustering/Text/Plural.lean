/-!
# English plurals

The stem of an English word: the word without a plural ending, by three suffix rules. Lengths are counted in bytes
of the word's UTF-8 form.
-/

namespace ToleranceClustering.Text

/-- The number of bytes of the UTF-8 form. -/
def byteLength (w : List Char) : Nat := w.foldr (fun c n => c.utf8Size + n) 0

/-- Whether a word ends in `ending`. -/
def endsIn (w : List Char) (ending : String) : Bool := ending.toList.isSuffixOf w

/-- Whether a word ends in `ending`, and in none of its exceptions. -/
def endsPlainlyIn (w : List Char) (ending : String) (exceptions : List String) : Bool :=
  endsIn w ending && !exceptions.any (endsIn w)

/-- The word without a plural ending: "ies" becomes "y", "es" becomes "e", and a final "s" is dropped, but for the
exceptions to each rule. A word that one rule refuses may still fall to a later one. -/
def stem (w : List Char) : List Char :=
  if 3 < byteLength w ∧ endsPlainlyIn w "ies" ["eies", "aies"] then w.take (w.length - 3) ++ ['y']
  else if 3 < byteLength w ∧ endsPlainlyIn w "es" ["aes", "ees", "oes"] then w.dropLast
  else if 2 < byteLength w ∧ endsPlainlyIn w "s" ["us", "ss"] then w.dropLast
  else w

end ToleranceClustering.Text
