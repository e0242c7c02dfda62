import ToleranceClustering.Proofs.Stems
import ToleranceClustering.Text.Analyzer

/-!
# The token filter

Tokens are to consist of letters and numbers, at least two of them, and not of numbers alone (`Passes`). The words of a
text do (`passes_of_mem_words`), and with them the tokens of the plain analyzer.

The stem of an English word is the word itself, the word with `y` for a final `ies`, or the word without its final `s`
(`stem_cases`). It always has two bytes (`minWordLength_le_byteLength_stem`), so the check of its length holds none
back. A word that lost its `s` may then be a single character beyond ASCII, or a number (`stems_escape_filter`); all
other tokens pass the filter (`tokens_pass_filter`).
-/

namespace ToleranceClustering.Text

/-- What tokens are to be: letters and numbers, enough of them, and not numbers alone. -/
structure Passes (w : List Char) : Prop where
  alphanumeric : ∀ c ∈ w, isAlphanumeric c = true
  long : minWordLength ≤ w.length
  word : ∃ c ∈ w, isNumeric c = false

/-! ## Words -/

/-- The runs of a text hold letters and numbers only. -/
theorem alphanumeric_of_mem_runsFrom {current cs : List Char} (h : ∀ c ∈ current, isAlphanumeric c = true)
    {w : List Char} (hw : w ∈ runsFrom current cs) : ∀ c ∈ w, isAlphanumeric c = true := by
  induction cs generalizing current with
  | nil =>
    rw [runsFrom, List.mem_singleton] at hw
    subst hw
    simpa using h
  | cons d ds ih =>
    rw [runsFrom] at hw
    split at hw
    · rename_i hd
      exact ih (List.forall_mem_cons.2 ⟨hd, h⟩) hw
    · rcases List.mem_cons.1 hw with rfl | hw
      · simpa using h
      · exact ih (by simp) hw

theorem isWord_iff {w : List Char} : isWord w = true ↔ minWordLength ≤ w.length ∧ ∃ c ∈ w, isNumeric c = false := by
  simp [isWord]

/-- The words of a text pass the filter. -/
theorem passes_of_mem_words {cs w : List Char} (h : w ∈ words cs) : Passes w := by
  obtain ⟨hrun, hword⟩ := List.mem_filter.1 h
  obtain ⟨hlong, hne⟩ := isWord_iff.1 hword
  exact ⟨alphanumeric_of_mem_runsFrom (by simp) hrun, hlong, hne⟩

/-! ## Stems -/

/-- The stem of a word that is long enough has enough bytes, if not enough characters. -/
theorem minWordLength_le_byteLength_stem {w : List Char} (h : minWordLength ≤ w.length) :
    minWordLength ≤ byteLength (stem w) := by
  rcases stem_cases w with hs | ⟨v, -, hv, hs⟩ | ⟨v, -, hv, hs⟩
  · rw [hs]
    exact Nat.le_trans h (length_le_byteLength w)
  · rw [hs]
    have hlength := length_le_byteLength (v ++ ['y'])
    have hpos := List.length_pos_iff.2 hv
    rw [List.length_append] at hlength
    exact Nat.le_trans (Nat.succ_le_succ hpos) hlength
  · rw [hs]
    exact hv

/-- What is left of a word without its final `s`, where it is one character of several bytes or numbers alone. -/
def Clipped (v : List Char) : Prop := (∃ c, v = [c] ∧ 1 < c.utf8Size) ∨ ∀ c ∈ v, isNumeric c = true

/-- What is clipped does not pass the filter. -/
theorem not_passes_of_clipped {v : List Char} (h : Clipped v) : ¬Passes v := by
  rintro ⟨-, hlong, c, hc, hne⟩
  rcases h with ⟨d, rfl, -⟩ | hnumeric
  · exact absurd hlong (by simp [minWordLength])
  · rw [hnumeric c hc] at hne
    cases hne

/-- The stem of a word passes the filter, unless the word lost an `s` behind one character or numbers alone. -/
theorem passes_stem {w : List Char} (h : Passes w) :
    Passes (stem w) ∨ w = stem w ++ ['s'] ∧ Clipped (stem w) := by
  rcases stem_cases w with hs | ⟨v, rfl, hv, hs⟩ | ⟨v, rfl, hv, hs⟩
  · rw [hs]
    exact Or.inl h
  · rw [hs]
    refine Or.inl ⟨?_, ?_, 'y', by simp, by decide⟩
    · intro c hc
      rcases List.mem_append.1 hc with hc | hc
      · exact h.alphanumeric c (List.mem_append_left _ hc)
      · obtain rfl := List.mem_singleton.1 hc
        decide
    · rw [List.length_append]
      exact Nat.succ_le_succ (List.length_pos_iff.2 hv)
  · rw [hs]
    have halpha : ∀ c ∈ v, isAlphanumeric c = true := fun c hc => h.alphanumeric c (List.mem_append_left _ hc)
    by_cases hnumeric : ∀ c ∈ v, isNumeric c = true
    · exact Or.inr ⟨rfl, Or.inr hnumeric⟩
    · have hword : ∃ c ∈ v, isNumeric c = false := by simpa using hnumeric
      rcases v with - | ⟨c, - | ⟨d, v⟩⟩
      · exact absurd hv (by decide)
      · exact Or.inr ⟨rfl, Or.inl ⟨c, rfl, hv⟩⟩
      · exact Or.inl ⟨halpha, by simp [minWordLength], hword⟩

/-! ## Tokens -/

/-- The token of a word that is no stopword is its stem, whatever its length. -/
theorem tokenOf_eq (stopwords : WordSet) {w : List Char} (h : minWordLength ≤ w.length) :
    EnglishAnalyzer.tokenOf stopwords w =
      if stopwords.contains (String.ofList w) then none else some (String.ofList (stem w)) := by
  rw [EnglishAnalyzer.tokenOf, if_pos (minWordLength_le_byteLength_stem h)]

theorem EnglishAnalyzer.mem_tokens {stopwords : WordSet} {text t : String} :
    t ∈ tokens stopwords text ↔
      ∃ w ∈ words text.toList, stopwords.contains (String.ofList w) = false ∧ String.ofList (stem w) = t := by
  rw [tokens, List.mem_filterMap]
  refine exists_congr fun w => and_congr_right fun hw => ?_
  rw [tokenOf_eq stopwords (passes_of_mem_words hw).long]
  cases stopwords.contains (String.ofList w) <;> simp

/-- The tokens of both analyzers consist of letters and numbers, whatever was analyzed before. Those of the plain one
pass the filter. Those of the English one pass it exactly if they are not clipped, and the text has those that are with
an `s` behind them. -/
theorem tokens_pass_filter (plain : GenericAnalyzer) (english : EnglishAnalyzer) (text : String) :
    (∃ tokens, (Analyzer.analyze plain text).1 = some tokens ∧ ∀ t ∈ tokens, Passes t.toList) ∧
    ∃ tokens, (Analyzer.analyze english text).1 = some tokens ∧
      ∀ t ∈ tokens, (∀ c ∈ t.toList, isAlphanumeric c = true) ∧ (Passes t.toList ↔ ¬Clipped t.toList) ∧
        (Clipped t.toList → t.toList ++ ['s'] ∈ words text.toList) := by
  constructor
  · refine ⟨GenericAnalyzer.tokens text, rfl, ?_⟩
    intro t ht
    obtain ⟨w, hw, rfl⟩ := List.mem_map.1 ht
    rw [String.toList_ofList]
    exact passes_of_mem_words hw
  · refine ⟨EnglishAnalyzer.tokens english.stopwords text, rfl, ?_⟩
    intro t ht
    obtain ⟨w, hw, -, rfl⟩ := EnglishAnalyzer.mem_tokens.1 ht
    rw [String.toList_ofList]
    rcases passes_stem (passes_of_mem_words hw) with hpasses | ⟨hs, hclipped⟩
    · have hnot : ¬Clipped (stem w) := fun h => not_passes_of_clipped h hpasses
      exact ⟨hpasses.alphanumeric, iff_of_true hpasses hnot, fun h => absurd h hnot⟩
    · have hword := hw
      rw [hs] at hword
      have halpha : ∀ c ∈ stem w, isAlphanumeric c = true := by
        intro c hc
        exact (passes_of_mem_words hword).alphanumeric c (List.mem_append_left _ hc)
      exact ⟨halpha, iff_of_false (not_passes_of_clipped hclipped) (not_not_intro hclipped), fun _ => hword⟩

/-- Two stems that fail the filter: one character of two bytes, and a number. -/
theorem stems_escape_filter :
    (Analyzer.analyze (EnglishAnalyzer.new .empty) "és 12s").1 = some ["é", "12"] ∧ ¬Passes "é".toList ∧
      ¬Passes "12".toList := by
  refine ⟨by decide +kernel, not_passes_of_clipped ?_, not_passes_of_clipped ?_⟩
  · exact Or.inl ⟨'é', by decide, by decide⟩
  · exact Or.inr (List.all_eq_true.1 (by decide))

end ToleranceClustering.Text
