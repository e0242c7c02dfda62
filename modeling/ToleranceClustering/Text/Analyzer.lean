import ToleranceClustering.Failure
import ToleranceClustering.Text.Plural
import ToleranceClustering.Text.Word
import ToleranceClustering.Text.WordSet

/-!
# Analyzers

An analyzer turns text into tokens. It has a state of its own (a buffer that is used again for every text), so it
serves one caller at a time and is reset between callers.
-/

namespace ToleranceClustering.Text

/-- Analyzers with states in `σ`. -/
class Analyzer (σ : Type) where
  /-- The code of the language that the analyzer is for. -/
  language : σ → String
  /-- The tokens of a text in text order, or none if the analyzer crashed on it; and its state afterwards. -/
  analyze : σ → String → Option (List String) × σ
  /-- The analyzer as good as new. One that cannot be reset is not to be used again. -/
  reset : σ → Outcome σ

/-- The analyzer for any language: the words of the text as they are. -/
structure GenericAnalyzer where
  buffer : List Char

namespace GenericAnalyzer

/-- A new analyzer. -/
def new : GenericAnalyzer := ⟨[]⟩

/-- The tokens of a text. -/
def tokens (text : String) : List String := (words text.toList).map String.ofList

/-- Puts the tokens of a text behind what is there, word by word. -/
def append (_ : GenericAnalyzer) (out : Array String) (text : String) : Array String × GenericAnalyzer :=
  let lowered := lowercaseEach text.toList
  (foldWords (fun out w => out.push (String.ofList w)) out lowered, ⟨lowered⟩)

instance : Analyzer GenericAnalyzer where
  language _ := "und"
  analyze _ text :=
    let lowered := lowercaseEach text.toList
    (some ((wordsOfLowered lowered).map String.ofList), ⟨lowered⟩)
  reset _ := .done new

end GenericAnalyzer

/-- The analyzer for English: stopwords are left out, and plurals reduced to the singular. -/
structure EnglishAnalyzer where
  stopwords : WordSet
  buffer : List Char
  /-- Set while a text is being analyzed. -/
  interrupted : Bool

namespace EnglishAnalyzer

/-- A new analyzer with these stopwords. -/
def new (stopwords : WordSet) : EnglishAnalyzer := ⟨stopwords, [], false⟩

/-- The token of a word: its stem, unless the word is a stopword or the stem is too short. -/
def tokenOf (stopwords : WordSet) (word : List Char) : Option String :=
  if stopwords.contains (String.ofList word) then none
  else if minWordLength ≤ byteLength (stem word) then some (String.ofList (stem word))
  else none

/-- The tokens of a text. -/
def tokens (stopwords : WordSet) (text : String) : List String := (words text.toList).filterMap (tokenOf stopwords)

/-- Puts the tokens of a text behind what is there, word by word. -/
def append (a : EnglishAnalyzer) (out : Array String) (text : String) : Array String × EnglishAnalyzer :=
  let lowered := lowercaseEach text.toList
  let put (out : Array String) (w : List Char) :=
    match tokenOf a.stopwords w with
    | some token => out.push token
    | none => out
  (foldWords put out lowered, ⟨a.stopwords, lowered, false⟩)

instance : Analyzer EnglishAnalyzer where
  language _ := "en"
  analyze a text :=
    let lowered := lowercaseEach text.toList
    (some ((wordsOfLowered lowered).filterMap (tokenOf a.stopwords)), ⟨a.stopwords, lowered, false⟩)
  reset a :=
    if a.interrupted then .failed (.other "english analyzer interrupted mid-document")
    else .done (new a.stopwords)

end EnglishAnalyzer

/-- The analyzers of the library. -/
inductive StandardAnalyzer where
  | generic (a : GenericAnalyzer)
  | english (a : EnglishAnalyzer)

namespace StandardAnalyzer

/-- Puts the tokens of a text behind what is there. -/
def append (out : Array String) (text : String) : StandardAnalyzer → Array String × StandardAnalyzer
  | .generic a => let (out, a) := a.append out text; (out, .generic a)
  | .english a => let (out, a) := a.append out text; (out, .english a)

instance : Analyzer StandardAnalyzer where
  language
    | .generic a => Analyzer.language a
    | .english a => Analyzer.language a
  analyze
    | .generic a, text => let (tokens, a) := Analyzer.analyze a text; (tokens, .generic a)
    | .english a, text => let (tokens, a) := Analyzer.analyze a text; (tokens, .english a)
  reset
    | .generic a => (Analyzer.reset a).map .generic
    | .english a => (Analyzer.reset a).map .english

end StandardAnalyzer

/-- Analyzes texts one after the other; the first crash ends it. -/
def analyzeAll {σ : Type} [Analyzer σ] (a : σ) : List String → Option (List (List String)) × σ
  | [] => (some [], a)
  | text :: texts =>
    match Analyzer.analyze a text with
    | (none, a) => (none, a)
    | (some tokens, a) =>
      match analyzeAll a texts with
      | (none, a) => (none, a)
      | (some rest, a) => (some (tokens :: rest), a)

end ToleranceClustering.Text
