/-!
# Word sets

Sets of texts, ascending by code point.
-/

namespace ToleranceClustering.Text

/-- Texts in ascending order, without repetition. -/
structure WordSet where
  words : List String
deriving DecidableEq, Repr

namespace WordSet

/-- The set without words. -/
def empty : WordSet := ⟨[]⟩

/-- Puts a word at its place; a word that is there stays single. -/
def insertInto (w : String) : List String → List String
  | [] => [w]
  | v :: vs => if w = v then v :: vs else if w < v then w :: v :: vs else v :: insertInto w vs

/-- The set with a word more. -/
def insert (s : WordSet) (w : String) : WordSet := ⟨insertInto w s.words⟩

/-- The set of the words of a list. -/
def ofList (ws : List String) : WordSet := ws.foldl insert empty

/-- Whether a word is in the set. -/
def contains (s : WordSet) (w : String) : Bool := s.words.contains w

/-- The number of words. -/
def size (s : WordSet) : Nat := s.words.length

theorem mem_insertInto {w v : String} {ws : List String} : v ∈ insertInto w ws ↔ v = w ∨ v ∈ ws := by
  induction ws with
  | nil => simp [insertInto]
  | cons u us ih =>
    simp only [insertInto]
    split
    · rename_i h
      subst h
      simp
    · split
      · simp
      · simp only [List.mem_cons, ih]
        grind

/-- A set with a word more holds that word and the words it held. -/
theorem mem_insert {s : WordSet} {w v : String} : v ∈ (s.insert w).words ↔ v = w ∨ v ∈ s.words :=
  mem_insertInto

end WordSet

end ToleranceClustering.Text
