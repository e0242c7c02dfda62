/-!
# English stopwords

The words that say nothing about the topic of an English text.
-/

namespace ToleranceClustering.Text

/-- The English stopwords, in alphabetical order. -/
def englishStopwords : List String :=
  ["a", "about", "above", "after", "again", "all", "am", "an", "and", "any", "are", "as", "at", "be", "because",
   "been", "before", "being", "below", "between", "both", "but", "by", "can", "could", "did", "do", "does",
   "doing", "down", "during", "each", "few", "for", "from", "further", "had", "has", "have", "having", "he",
   "her", "here", "hers", "him", "his", "how", "i", "if", "in", "into", "is", "it", "its", "just", "me", "more",
   "most", "my", "no", "nor", "not", "now", "of", "off", "on", "once", "only", "or", "other", "our", "out",
   "over", "own", "same", "she", "should", "so", "some", "such", "than", "that", "the", "their", "them", "then",
   "there", "these", "they", "this", "those", "through", "to", "too", "under", "until", "up", "very", "was", "we",
   "were", "what", "when", "where", "which", "while", "who", "whom", "why", "will", "with", "would", "you",
   "your"]

/-- The name under which the English stopwords are kept. -/
def englishStopwordList : String := "stopwords.en"

/-- The word list as it is stored: one word a line. -/
def englishStopwordText : String := String.join (englishStopwords.map (· ++ "\n"))

end ToleranceClustering.Text
