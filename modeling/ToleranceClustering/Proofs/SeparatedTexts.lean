import ToleranceClustering.Proofs.ListedWords
import ToleranceClustering.Proofs.SteadyAnalyzers

/-!
# Separated texts

A character whose lower-case form has no letter or number separates the text before it from the text behind it: the
words of both are the words of the one followed by those of the other (`words_append_cons`). An analyzer puts the tokens
of the one and then those of the other behind what is there, whatever it was used for before
(`separated_texts_stay_apart`).

The words of a text are in lower case and in no need of splitting, so the plain analyzer finds them again in the text of
its tokens with spaces between them (`tokens_are_in_normal_form`).
-/

namespace ToleranceClustering.Text

/-! ## Words -/

/-- A run ends at a separator, and the next one begins behind it. -/
theorem runsFrom_append_cons {c : Char} (hc : isAlphanumeric c = false) (current cs ds : List Char) :
    runsFrom current (cs ++ c :: ds) = runsFrom current cs ++ runsFrom [] ds := by
  induction cs generalizing current with
  | nil => simp [runsFrom, hc]
  | cons d cs ih =>
    rw [List.cons_append, runsFrom, runsFrom]
    split
    · exact ih (d :: current)
    · rw [ih, List.cons_append]

theorem wordsOfLowered_append_cons {c : Char} (hc : isAlphanumeric c = false) (cs ds : List Char) :
    wordsOfLowered (cs ++ c :: ds) = wordsOfLowered cs ++ wordsOfLowered ds := by
  unfold wordsOfLowered
  rw [runsFrom_append_cons hc, List.filter_append]

/-- Separators at the front of a text belong to no word. -/
theorem wordsOfLowered_separators {seps : List Char} (h : ∀ c ∈ seps, isAlphanumeric c = false) (cs : List Char) :
    wordsOfLowered (seps ++ cs) = wordsOfLowered cs := by
  induction seps with
  | nil => rfl
  | cons c seps ih =>
    obtain ⟨hc, hseps⟩ := List.forall_mem_cons.1 h
    exact (wordsOfLowered_append_cons hc [] (seps ++ cs)).trans (ih hseps)

/-- A form may have several characters, but it has one at least. -/
theorem lowercase_ne_nil (c : Char) : lowercase c ≠ [] := by
  unfold lowercase
  split
  · exact List.cons_ne_nil _ _
  · exact List.cons_ne_nil _ _

theorem lowercaseEach_append_cons (c : Char) (cs ds : List Char) :
    lowercaseEach (cs ++ c :: ds) = lowercaseEach cs ++ (lowercase c ++ lowercaseEach ds) := by
  rw [lowercaseEach, List.flatMap_append, List.flatMap_cons]
  rfl

/-- Words split at a character whose form has no letter or number. -/
theorem words_append_cons {c : Char} (hc : ∀ d ∈ lowercase c, isAlphanumeric d = false) (cs ds : List Char) :
    words (cs ++ c :: ds) = words cs ++ words ds := by
  rw [words, lowercaseEach_append_cons]
  cases hform : lowercase c with
  | nil => exact absurd hform (lowercase_ne_nil c)
  | cons d seps =>
    rw [hform] at hc
    obtain ⟨hd, hseps⟩ := List.forall_mem_cons.1 hc
    rw [List.cons_append, wordsOfLowered_append_cons hd, wordsOfLowered_separators hseps]
    rfl

/-! ## Analyzers -/

theorem GenericAnalyzer.append_eq (a : GenericAnalyzer) (out : Array String) (text : String) :
    (a.append out text).1 = out ++ (tokens text).toArray := by
  have hpushed : (a.append out text).1 = (tokens text).foldl Array.push out :=
    (foldWords_eq _ _ _).trans List.foldl_map.symm
  rw [hpushed, List.foldl_push_eq_append']

theorem EnglishAnalyzer.append_eq (a : EnglishAnalyzer) (out : Array String) (text : String) :
    (a.append out text).1 = out ++ (tokens a.stopwords text).toArray := by
  have hpushed : (a.append out text).1 = (tokens a.stopwords text).foldl Array.push out := by
    rw [append, foldWords_eq, tokens, List.foldl_filterMap]
    refine congrArg (fun put => (words text.toList).foldl put out) ?_
    funext out w
    cases tokenOf a.stopwords w <;> rfl
  rw [hpushed, List.foldl_push_eq_append']

namespace StandardAnalyzer

/-- What an analyzer makes of a text, whatever it was used for before. -/
def tokens : StandardAnalyzer → String → List String
  | .generic _ => GenericAnalyzer.tokens
  | .english a => EnglishAnalyzer.tokens a.stopwords

theorem append_eq (a : StandardAnalyzer) (out : Array String) (text : String) :
    (a.append out text).1 = out ++ (a.tokens text).toArray := by
  cases a with
  | generic a => exact a.append_eq out text
  | english a => exact a.append_eq out text

/-- Analyzing is putting the tokens behind nothing. -/
theorem analyze_eq_append (a : StandardAnalyzer) (text : String) :
    Analyzer.analyze a text = (some (a.append #[] text).1.toList, (a.append #[] text).2) := by
  rw [append_eq, Array.empty_append]
  cases a <;> rfl

/-- Analyzing a text leaves the analyzer in one state, whatever its tokens are put behind. -/
theorem becomes_append (a : StandardAnalyzer) (out : Array String) (text : String) :
    Becomes a (a.append out text).2 := by
  have hstate : (a.append out text).2 = (Analyzer.analyze a text).2 := by
    cases a <;> rfl
  rw [hstate]
  exact Becomes.refl.analyze text

theorem analyze_tokens (a : StandardAnalyzer) (text : String) : (Analyzer.analyze a text).1 = some (a.tokens text) := by
  rw [analyze_eq_append, append_eq, Array.empty_append]

/-- Use and resets do not change what an analyzer makes of a text. -/
theorem tokens_of_becomes {a b : StandardAnalyzer} (h : Becomes a b) : b.tokens = a.tokens := by
  induction h with
  | refl => rfl
  | @analyze b text _ ih =>
    rw [← ih]
    cases b <;> rfl
  | @reset b c _ hr ih =>
    rw [← ih]
    cases b with
    | generic g =>
      obtain rfl := Outcome.done.inj hr
      rfl
    | english e =>
      simp only [Analyzer.reset] at hr
      split at hr
      · cases hr
      · obtain rfl := Outcome.done.inj hr
        rfl

theorem tokens_append_cons (a : StandardAnalyzer) (x y : String) {c : Char}
    (hc : ∀ d ∈ lowercase c, isAlphanumeric d = false) :
    a.tokens (x ++ String.singleton c ++ y) = a.tokens x ++ a.tokens y := by
  have hwords : words (x ++ String.singleton c ++ y).toList = words x.toList ++ words y.toList := by
    rw [← words_append_cons hc]
    simp
  cases a with
  | generic a => simp only [tokens, GenericAnalyzer.tokens, hwords, List.map_append]
  | english a => simp only [tokens, EnglishAnalyzer.tokens, hwords, List.filterMap_append]

end StandardAnalyzer

/-- An analyzer that was used and reset in any way since it was `fresh` puts behind what is there the tokens of the text
before a separator, and then those of the text behind it: the ones that it made of these texts when it was fresh. It may
be used on like that. -/
theorem separated_texts_stay_apart {fresh a : StandardAnalyzer} (ha : Becomes fresh a) (x y : String) {c : Char}
    (hc : ∀ d ∈ lowercase c, isAlphanumeric d = false) (out : Array String) :
    ∃ xs ys, (Analyzer.analyze fresh x).1 = some xs ∧ (Analyzer.analyze fresh y).1 = some ys ∧
      (a.append out (x ++ String.singleton c ++ y)).1 = out ++ xs.toArray ++ ys.toArray ∧
      Becomes fresh (a.append out (x ++ String.singleton c ++ y)).2 := by
  have htokens := fresh.tokens_append_cons x y hc
  refine ⟨fresh.tokens x, fresh.tokens y, fresh.analyze_tokens x, fresh.analyze_tokens y, ?_,
    ha.trans (a.becomes_append _ _)⟩
  rw [a.append_eq, StandardAnalyzer.tokens_of_becomes ha, htokens, Array.append_assoc,
    List.append_toArray (fresh.tokens x)]

/-- A new English analyzer that leaves out one word. -/
def newEnglish : StandardAnalyzer := .english (.new ⟨["the"]⟩)

/-- It makes of two words with a dash between them what it makes of each, also after another text and a reset. -/
theorem dash_keeps_words_apart : ∃ a, Becomes newEnglish a ∧ (∀ d ∈ lowercase '-', isAlphanumeric d = false) ∧
    (a.append #["kept"] "The cars-BANANAS").1 = #["kept", "car", "banana"] := by
  have ha : Becomes newEnglish newEnglish := (Becomes.refl.analyze "Another text").reset rfl
  have hform : lowercase '-' = ['-'] := by decide
  have hdash : ∀ d ∈ lowercase '-', isAlphanumeric d = false := by
    rw [hform, List.forall_mem_singleton]
    decide
  obtain ⟨xs, ys, hx, hy, hout, -⟩ := separated_texts_stay_apart ha "The cars" "BANANAS" hdash #["kept"]
  have hxs : (Analyzer.analyze newEnglish "The cars").1 = some ["car"] := by decide +kernel
  have hys : (Analyzer.analyze newEnglish "BANANAS").1 = some ["banana"] := by decide +kernel
  obtain rfl := Option.some.inj (hx.symm.trans hxs)
  obtain rfl := Option.some.inj (hy.symm.trans hys)
  exact ⟨newEnglish, ha, hdash, hout⟩

/-! ## Tokens -/

theorem mem_of_mem_runsFrom {current cs w : List Char} (hw : w ∈ runsFrom current cs) :
    ∀ c ∈ w, c ∈ current ∨ c ∈ cs := by
  induction cs generalizing current with
  | nil =>
    rw [runsFrom, List.mem_singleton] at hw
    subst hw
    simp
  | cons d ds ih =>
    intro c hc
    rw [runsFrom] at hw
    split at hw
    · have h := ih hw c hc
      grind
    · rcases List.mem_cons.1 hw with rfl | hw
      · exact Or.inl (List.mem_reverse.1 hc)
      · have h := ih hw c hc
        grind

/-- The characters of a word are their own lower-case forms. -/
theorem lowercase_of_mem_words {cs w : List Char} (hw : w ∈ words cs) {c : Char} (hc : c ∈ w) :
    lowercase c = [c] := by
  rcases mem_of_mem_runsFrom (List.mem_filter.1 hw).1 c hc with h | h
  · exact absurd h List.not_mem_nil
  · obtain ⟨d, -, hd⟩ := List.mem_flatMap.1 h
    exact lowercase_of_mem_lowercase hd

/-- A word of a text is the only word of itself. -/
theorem wordsOfLowered_of_mem_words {cs w : List Char} (hw : w ∈ words cs) : wordsOfLowered w = [w] := by
  have hrun := runsFrom_of_alphanumeric (passes_of_mem_words hw).alphanumeric []
  rw [wordsOfLowered, hrun, List.reverse_nil, List.nil_append, List.filter_cons_of_pos (List.mem_filter.1 hw).2]
  rfl

/-- Words with spaces between them are found again. -/
theorem words_intercalate {cs : List Char} {ws : List (List Char)} (h : ∀ w ∈ ws, w ∈ words cs) :
    words ([' '].intercalate ws) = ws := by
  have hform : lowercase ' ' = [' '] := by decide
  have hspace : ∀ d ∈ lowercase ' ', isAlphanumeric d = false := by
    rw [hform, List.forall_mem_singleton]
    decide
  induction ws with
  | nil => rfl
  | cons w ws ih =>
    obtain ⟨hw, hws⟩ := List.forall_mem_cons.1 h
    have hself : words w = [w] := by
      rw [words, lowercaseEach_eq_self fun c hc => lowercase_of_mem_words hw hc, wordsOfLowered_of_mem_words hw]
    cases ws with
    | nil => rw [List.intercalate_singleton, hself]
    | cons v ws =>
      rw [List.intercalate_cons_cons, List.append_assoc, List.singleton_append, words_append_cons hspace, hself, ih hws,
        List.singleton_append]

/-- The plain analyzer makes of a text what it makes of the text of its tokens with spaces between them, and of every
text that has another character in one place, but one with the same lower-case form. -/
theorem tokens_are_in_normal_form (a b : GenericAnalyzer) (text : String) :
    ∃ tokens, (Analyzer.analyze a text).1 = some tokens ∧
      (Analyzer.analyze b (" ".intercalate tokens)).1 = some tokens ∧
      ∀ x y c d, text = x ++ String.singleton c ++ y → lowercase d = lowercase c →
        (Analyzer.analyze b (x ++ String.singleton d ++ y)).1 = some tokens := by
  refine ⟨GenericAnalyzer.tokens text, rfl, congrArg some ?_, ?_⟩
  · have hchars : (" ".intercalate (GenericAnalyzer.tokens text)).toList = [' '].intercalate (words text.toList) := by
      rw [String.toList_intercalate, GenericAnalyzer.tokens, List.map_map]
      simp [Function.comp_def]
    have hwords : words ([' '].intercalate (words text.toList)) = words text.toList := words_intercalate fun w hw => hw
    rw [← hchars] at hwords
    exact congrArg (List.map String.ofList) hwords
  · rintro x y c d rfl hform
    have hwords : words (x ++ String.singleton d ++ y).toList = words (x ++ String.singleton c ++ y).toList := by
      simp only [String.toList_append, String.toList_singleton, List.append_assoc, List.singleton_append, words,
        lowercaseEach_append_cons, hform]
    exact congrArg (fun ws => some (ws.map String.ofList)) hwords

/-- The tokens of a text with a dash, of the text with a space in its place, and of the text with a capital in it. -/
theorem banana_split_in_normal_form :
    (Analyzer.analyze GenericAnalyzer.new "the banana-split 2").1 = some ["the", "banana", "split"] ∧
      (Analyzer.analyze GenericAnalyzer.new "the banana split").1 = some ["the", "banana", "split"] ∧
      (Analyzer.analyze GenericAnalyzer.new "the Banana-split 2").1 = some ["the", "banana", "split"] := by
  obtain ⟨tokens, htokens, hagain, hother⟩ := tokens_are_in_normal_form .new .new "the banana-split 2"
  have heval : (Analyzer.analyze GenericAnalyzer.new "the banana-split 2").1 = some ["the", "banana", "split"] := by
    decide +kernel
  obtain rfl := Option.some.inj (htokens.symm.trans heval)
  exact ⟨htokens, hagain, hother "the " "anana-split 2" 'b' 'B' (by decide) (by decide)⟩

end ToleranceClustering.Text
