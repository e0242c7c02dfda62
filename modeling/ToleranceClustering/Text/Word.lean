import ToleranceClustering.Text.Case
import ToleranceClustering.Text.Letter

/-!
# Words

The words of a text: the runs of letters and numbers of its lower-case form. A word that is too short or a mere
number is passed over.
-/

namespace ToleranceClustering.Text

/-- The shortest word that is kept. -/
def minWordLength : Nat := 2

/-- The runs of letters and numbers of a text, given the run before it backwards; runs may be empty. -/
def runsFrom (current : List Char) : List Char → List (List Char)
  | [] => [current.reverse]
  | c :: cs => if isAlphanumeric c then runsFrom (c :: current) cs else current.reverse :: runsFrom [] cs

/-- Whether a run counts as a word: it is long enough and not made of numbers alone. -/
def isWord (w : List Char) : Bool := decide (minWordLength ≤ w.length) && !w.all isNumeric

/-- The words of a text in lower case. -/
def wordsOfLowered (cs : List Char) : List (List Char) := (runsFrom [] cs).filter isWord

/-- The words of a text, in text order. -/
def words (cs : List Char) : List (List Char) := wordsOfLowered (lowercaseEach cs)

/-- Takes up the words of a text in lower case while it is read, one after the other. -/
def foldWords {β : Type} (take : β → List Char → β) (start : β) (cs : List Char) : β :=
  (runsFrom [] cs).foldl (fun b run => if isWord run then take b run else b) start

theorem foldWords_eq {β : Type} (take : β → List Char → β) (start : β) (cs : List Char) :
    foldWords take start cs = (wordsOfLowered cs).foldl take start :=
  List.foldl_filter.symm

end ToleranceClustering.Text
