/-!
# The lexicon

Terms are numbered densely from zero in the order in which they are first seen. The number of a term never changes,
and no number is given twice.

Main statements: `term?_intern` and `find?_intern` (a term that was interned is found under its number), and
`find?_eq_some_iff` (looking up by text and by number are inverse to each other).
-/

namespace ToleranceClustering

/-- The number of a term. -/
abbrev TermId := Nat

/-- How a term number is written where no text is known for it. -/
def termLabel (t : TermId) : String := "t" ++ toString t

/-- The terms seen so far, in the order of their numbers. -/
structure Lexicon where
  terms : List String
  nodup : terms.Nodup

namespace Lexicon

/-- The lexicon without terms. -/
def empty : Lexicon := ⟨[], List.nodup_nil⟩

/-- The number of terms. -/
def size (lex : Lexicon) : Nat := lex.terms.length

/-- The number of a term, if it was seen. -/
def find? (lex : Lexicon) (term : String) : Option TermId := lex.terms.idxOf? term

/-- The term of a number, if it was given. -/
def term? (lex : Lexicon) (t : TermId) : Option String := lex.terms[t]?

/-- The text shown for a term number. -/
def display (lex : Lexicon) (t : TermId) : String := (lex.term? t).getD (termLabel t)

/-- The number of a term, and the lexicon in which it has one: an unseen term takes the next number. -/
def intern (lex : Lexicon) (term : String) : TermId × Lexicon :=
  if h : term ∈ lex.terms then (lex.terms.idxOf term, lex)
  else (lex.size, ⟨lex.terms ++ [term], by
    simpa [List.nodup_append] using ⟨lex.nodup, fun a ha e => h (e ▸ ha)⟩⟩)

/-- The numbers of the terms of a list, interned from left to right. -/
def internAll (lex : Lexicon) : List String → List TermId × Lexicon
  | [] => ([], lex)
  | term :: rest =>
    let (t, lex) := lex.intern term
    let (ts, lex) := lex.internAll rest
    (t :: ts, lex)

/-- The terms of a list, each numbered at its first place. -/
def ofList (terms : List String) : Lexicon := (empty.internAll terms).2

theorem intern_of_mem {lex : Lexicon} {term : String} (h : term ∈ lex.terms) :
    lex.intern term = (lex.terms.idxOf term, lex) := by
  simp [intern, h]

theorem terms_intern_of_not_mem {lex : Lexicon} {term : String} (h : term ∉ lex.terms) :
    (lex.intern term).1 = lex.size ∧ (lex.intern term).2.terms = lex.terms ++ [term] := by
  simp [intern, h]

/-- Looking up by text and looking up by number are inverse to each other. -/
theorem find?_eq_some_iff {lex : Lexicon} {term : String} {t : TermId} :
    lex.find? term = some t ↔ lex.term? t = some term := by
  unfold find? term?
  rw [List.idxOf?_eq_some_iff]
  constructor
  · rintro ⟨h, he, -⟩
    rw [List.getElem?_eq_getElem h, he]
  · intro h
    obtain ⟨hlt, he⟩ := List.getElem?_eq_some_iff.1 h
    refine ⟨hlt, by simp [he], fun j hj => ?_⟩
    intro hjt
    have hj' : j < lex.terms.length := Nat.lt_trans hj hlt
    exact List.pairwise_iff_getElem.1 lex.nodup j t hj' hlt hj (hjt.trans he.symm)

/-- An interned term is found under its number. -/
theorem term?_intern (lex : Lexicon) (term : String) :
    (lex.intern term).2.term? (lex.intern term).1 = some term := by
  by_cases h : term ∈ lex.terms
  · rw [intern_of_mem h]
    unfold term?
    rw [List.getElem?_eq_getElem (List.idxOf_lt_length_of_mem h), List.getElem_idxOf]
  · obtain ⟨h₁, h₂⟩ := terms_intern_of_not_mem h
    unfold term?
    rw [h₁, h₂]
    simp [size]

theorem find?_intern (lex : Lexicon) (term : String) :
    (lex.intern term).2.find? term = some (lex.intern term).1 :=
  find?_eq_some_iff.2 (term?_intern lex term)

end Lexicon

end ToleranceClustering
