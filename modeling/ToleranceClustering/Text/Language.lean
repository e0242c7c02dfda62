import ToleranceClustering.Pool
import ToleranceClustering.Text.Analyzer
import ToleranceClustering.Text.Storage

/-!
# Languages

Which languages have an analyzer, and how it is built. Languages are known by their codes, taken as they are written.
-/

namespace ToleranceClustering.Text

/-- Builds an analyzer, with word lists from a loader and a cache. -/
abbrev AnalyzerFactory (σ : Type) := Loader → Builder WordListCache σ

namespace AnalyzerFactory

variable {σ : Type}

/-- Always the same new analyzer. -/
def always (a : σ) : AnalyzerFactory σ := fun _ cache => (.done a, cache)

/-- Always the same failure. -/
def failing (f : Failure) : AnalyzerFactory σ := fun _ cache => (.failed f, cache)

/-- An English analyzer with the stopwords of a word list. -/
def english (wrap : EnglishAnalyzer → σ) (list : String) : AnalyzerFactory σ := fun loader cache =>
  match cache.load loader list with
  | (.ok loaded, cache) => (.done (wrap (EnglishAnalyzer.new loaded.words)), cache)
  | (.error f, cache) => (.failed f, cache)

end AnalyzerFactory

/-- Factories by language code, ascending. -/
structure LanguageTable (σ : Type) where
  factories : List (String × AnalyzerFactory σ)

namespace LanguageTable

variable {σ : Type}

/-- The table without languages. -/
def empty : LanguageTable σ := ⟨[]⟩

/-- The factories after `code` got a factory. -/
def registerIn (code : String) (f : AnalyzerFactory σ) :
    List (String × AnalyzerFactory σ) → List (String × AnalyzerFactory σ)
  | [] => [(code, f)]
  | e :: es =>
    if code = e.1 then (code, f) :: es
    else if code < e.1 then (code, f) :: e :: es
    else e :: registerIn code f es

/-- Gives a language a factory, in place of the one it had. -/
def register (t : LanguageTable σ) (code : String) (f : AnalyzerFactory σ) : LanguageTable σ :=
  ⟨registerIn code f t.factories⟩

/-- The table of the built-in language. -/
def standard (wrap : EnglishAnalyzer → σ) : LanguageTable σ :=
  empty.register "en" (AnalyzerFactory.english wrap englishStopwordList)

/-- The factory of a language. -/
def factory? (t : LanguageTable σ) (code : String) : Option (AnalyzerFactory σ) := t.factories.lookup code

/-- Whether a language has a factory. -/
def supports (t : LanguageTable σ) (code : String) : Bool := (t.factory? code).isSome

/-- The languages that have one, ascending. -/
def languages (t : LanguageTable σ) : List String := t.factories.map Prod.fst

/-- Builds an analyzer for a language. -/
def create (t : LanguageTable σ) (code : String) : AnalyzerFactory σ := fun loader cache =>
  match t.factory? code with
  | some f => f loader cache
  | none => (.failed (.unsupportedLanguage code), cache)

end LanguageTable

end ToleranceClustering.Text
