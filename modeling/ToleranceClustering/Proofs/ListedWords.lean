import ToleranceClustering.Proofs.LowerCase
import ToleranceClustering.Proofs.TokenFilter
import ToleranceClustering.Text.WordList

/-!
# Listed words

A word list is lowered word by word as a text, and a text to be analyzed character by character. A listed word of
letters and numbers is found again as a stopword, as it is stored and as it was written, but for two things
(`listed_word_gives_no_token`): where a capital sigma ends a word, the list has the final sigma and the analyzer the
other one, and the form of a dotted capital I has a mark that splits the word (`listed_words_give_tokens`).
-/

namespace ToleranceClustering.Text

/-! ## Lists -/

namespace WordList

/-- The words on the lines of a stream, as they are written. -/
def Lists (stream : ByteStream) (w : List Char) : Prop :=
  ∃ line ∈ linesFrom [] stream.bytes, ∃ text, String.fromUTF8? ⟨line.toArray⟩ = some text ∧ trim text.toList = w ∧
    w ≠ [] ∧ w.head? ≠ some '#'

theorem wordOf_eq_some {line w : List Char} (h : trim line = w) (hne : w ≠ []) (hcomment : w.head? ≠ some '#') :
    wordOf line = some (String.ofList (lowercaseText w)) := by
  unfold wordOf
  rw [h]
  split
  · exact absurd rfl hne
  · exact absurd rfl hcomment
  · rfl

/-- Reading lines gives what the set held and the words of the lines. -/
theorem mem_readLines {s t : WordSet} {lines : List (List UInt8)} (h : readLines s lines = .ok t) {v : String} :
    v ∈ t.words ↔ v ∈ s.words ∨ ∃ line ∈ lines, ∃ text, String.fromUTF8? ⟨line.toArray⟩ = some text ∧
      wordOf text.toList = some v := by
  induction lines generalizing s with
  | nil =>
    obtain rfl := Except.ok.inj h
    simp
  | cons line lines ih =>
    rw [readLines] at h
    simp only [List.mem_cons, exists_eq_or_imp]
    split at h
    · cases h
    · rename_i text htext
      split at h
      · rename_i hnone
        simp [ih h, htext, hnone]
      · rename_i w hw
        simp [ih h, htext, hw, WordSet.mem_insert, eq_comm, or_assoc, or_left_comm]

theorem readLines_of_read {stream : ByteStream} {words : WordSet} (h : read stream = .ok words) :
    readLines .empty (linesFrom [] stream.bytes) = .ok words := by
  unfold read ByteStream.readable at h
  cases hfailure : stream.failure with
  | none =>
    rw [hfailure] at h
    simpa using h
  | some cause =>
    rw [hfailure] at h
    split at h
    · cases h
    · simp_all

/-- A word of a stream is read in lower case. -/
theorem mem_of_lists {stream : ByteStream} {words : WordSet} (h : read stream = .ok words) {w : List Char}
    (hw : Lists stream w) : String.ofList (lowercaseText w) ∈ words.words := by
  obtain ⟨line, hline, text, htext, htrim, hne, hcomment⟩ := hw
  exact (mem_readLines (readLines_of_read h)).2 (Or.inr ⟨line, hline, text, htext, wordOf_eq_some htrim hne hcomment⟩)

end WordList

namespace WordListCache

/-- What a cache may come to, if all lists are loaded through one loader. -/
inductive FilledBy (loader : Loader) : WordListCache → Prop where
  | empty : FilledBy loader .empty
  | load {c : WordListCache} (name : String) : FilledBy loader c → FilledBy loader (c.load loader name).2

variable {loader : Loader} {c : WordListCache} {name : String}

/-- A list in the cache is the one that the loader has. -/
theorem open?_of_find? (hc : c.FilledBy loader) {words : WordSet} (h : c.find? name = some words) :
    open? loader name = .ok words := by
  induction hc with
  | empty => cases h
  | @load c other _ ih =>
    unfold load at h
    split at h
    · exact ih h
    · split at h
      · exact ih h
      · rename_i read hread
        unfold find? at h ih
        rw [List.lookup_append, Option.or_eq_some_iff] at h
        rcases h with h | ⟨-, h⟩
        · exact ih h
        · rw [List.lookup_cons] at h
          split at h
          · rename_i hname
            obtain rfl := eq_of_beq hname
            obtain rfl := Option.some.inj h
            exact hread
          · cases h

/-- So is a list that is loaded, from the cache or not. -/
theorem open?_of_load (hc : c.FilledBy loader) {loaded : LoadedList} (h : (c.load loader name).1 = .ok loaded) :
    open? loader name = .ok loaded.words := by
  unfold load at h
  split at h
  · rename_i words hwords
    obtain rfl := Except.ok.inj h
    exact open?_of_find? hc hwords
  · split at h
    · cases h
    · rename_i words hwords
      obtain rfl := Except.ok.inj h
      exact hwords

theorem read_of_open? {stream : ByteStream} (hname : loader name = .ok stream) {words : WordSet}
    (h : open? loader name = .ok words) : WordList.read stream = .ok words := by
  unfold open? at h
  rw [hname] at h
  simp only at h
  split at h
  · cases h
  · rename_i hread
    rw [hread, Except.ok.inj h]

end WordListCache

/-! ## Texts of listed words -/

/-- A text of letters and numbers is one run. -/
theorem runsFrom_of_alphanumeric {w : List Char} (h : ∀ c ∈ w, isAlphanumeric c = true) (current : List Char) :
    runsFrom current w = [current.reverse ++ w] := by
  induction w generalizing current with
  | nil => rw [runsFrom, List.append_nil]
  | cons c w ih =>
    obtain ⟨hc, hw⟩ := List.forall_mem_cons.1 h
    rw [runsFrom, if_pos hc, ih hw, List.reverse_cons, List.append_assoc, List.singleton_append]

/-- A text whose form consists of letters and numbers has no word but its form. -/
theorem eq_of_mem_words {w v : List Char} (h : ∀ c ∈ lowercaseEach w, isAlphanumeric c = true) (hv : v ∈ words w) :
    v = lowercaseEach w := by
  have hrun := (List.mem_filter.1 hv).1
  rwa [runsFrom_of_alphanumeric h, List.reverse_nil, List.nil_append, List.mem_singleton] at hrun

/-- A text gives no token exactly when all its words are stopwords. -/
theorem analyze_eq_nil_iff (a : EnglishAnalyzer) (w : List Char) :
    (Analyzer.analyze a (String.ofList w)).1 = some [] ↔ ∀ v ∈ words w, String.ofList v ∈ a.stopwords.words := by
  have htokens : (Analyzer.analyze a (String.ofList w)).1 =
      some (EnglishAnalyzer.tokens a.stopwords (String.ofList w)) := rfl
  rw [htokens, Option.some_inj, EnglishAnalyzer.tokens, String.toList_ofList, List.filterMap_eq_nil_iff]
  refine forall_congr' fun v => imp_congr_right fun hv => ?_
  have hlisted : a.stopwords.contains (String.ofList v) = true ↔ String.ofList v ∈ a.stopwords.words :=
    List.contains_iff_mem
  rw [tokenOf_eq a.stopwords (passes_of_mem_words hv).long, ← hlisted]
  cases a.stopwords.contains (String.ofList v) <;> simp

/-- Letters and numbers other than the dotted capital I keep to letters and numbers. -/
theorem isAlphanumeric_of_mem_forms {w : List Char} (halpha : ∀ ch ∈ w, isAlphanumeric ch = true) (hdot : 'İ' ∉ w) :
    ∀ ch ∈ w, ∀ d ∈ lowercase ch, isAlphanumeric d = true := by
  intro ch hch d hd
  refine isAlphanumeric_of_mem_lowercase ?_ (halpha ch hch) hd
  rintro rfl
  exact hdot hch

/-- A word of letters and numbers on a list is stored in lower case. To an analyzer with the listed stopwords, the text
of that form gives no token unless there is a dotted capital I in the word, and the text of the word as it is written
gives none unless there is one or a capital sigma ends a word in it. In these cases a text gives no token exactly when
all its words are listed. -/
theorem listed_word_gives_no_token {loader : Loader} {c : WordListCache} (hc : c.FilledBy loader) {name : String}
    {stream : ByteStream} (hname : loader name = .ok stream) {loaded : LoadedList}
    (hload : (c.load loader name).1 = .ok loaded) {w : List Char} (hw : WordList.Lists stream w)
    (halpha : ∀ ch ∈ w, isAlphanumeric ch = true) {a : EnglishAnalyzer} (ha : a.stopwords = loaded.words) :
    String.ofList (lowercaseText w) ∈ loaded.words.words ∧
      ((Analyzer.analyze a (String.ofList (lowercaseText w))).1 = some [] ↔
        ('İ' ∈ w → ∀ v ∈ words (lowercaseText w), String.ofList v ∈ loaded.words.words)) ∧
      ((Analyzer.analyze a (String.ofList w)).1 = some [] ↔
        ('İ' ∈ w ∨ FinalSigma w → ∀ v ∈ words w, String.ofList v ∈ loaded.words.words)) := by
  have hread := WordListCache.read_of_open? hname (WordListCache.open?_of_load hc hload)
  have hstored := WordList.mem_of_lists hread hw
  rw [analyze_eq_nil_iff, analyze_eq_nil_iff, ha]
  refine ⟨hstored, ⟨fun h _ => h, fun h => ?_⟩, ⟨fun h _ => h, fun h => ?_⟩⟩
  · by_cases hdot : 'İ' ∈ w
    · exact h hdot
    · have hsigma : isAlphanumeric 'ς' = true := by decide
      have htext := forall_mem_lowercaseAfter hsigma (isAlphanumeric_of_mem_forms halpha hdot) []
      rw [← lowercaseText, ← lowercaseEach_lowercaseText] at htext
      intro v hv
      rw [eq_of_mem_words htext hv, lowercaseEach_lowercaseText]
      exact hstored
  · by_cases hspecial : 'İ' ∈ w ∨ FinalSigma w
    · exact h hspecial
    · obtain ⟨hdot, hfinal⟩ := not_or.1 hspecial
      have heach : ∀ d ∈ lowercaseEach w, isAlphanumeric d = true := by
        intro d hd
        obtain ⟨ch, hch, hd⟩ := List.mem_flatMap.1 hd
        exact isAlphanumeric_of_mem_forms halpha hdot ch hch d hd
      intro v hv
      rw [eq_of_mem_words heach hv, ← (lowercaseText_eq_lowercaseEach_iff w).2 hfinal]
      exact hstored

/-- A list with a comment, a word that ends in a capital sigma, one that begins with a dotted capital I, and one of
plain letters. -/
def mixedList : ByteStream := ByteStream.ofString "# words\n ΟΔΟΣ \r\nİstanbul\nThe\n"

/-- What a new cache gives for that list. -/
theorem load_mixedList : ∃ loaded : LoadedList,
    (WordListCache.empty.load (fun _ => .ok mixedList) "mixed").1 = .ok loaded ∧
      loaded.words = ⟨["i\u0307stanbul", "the", "οδος"]⟩ := by
  have hwords : (WordListCache.empty.load (fun _ => .ok mixedList) "mixed").1.toOption.map LoadedList.words =
      some ⟨["i\u0307stanbul", "the", "οδος"]⟩ := by decide +kernel
  cases hload : (WordListCache.empty.load (fun _ => .ok mixedList) "mixed").1 with
  | error f =>
    rw [hload] at hwords
    cases hwords
  | ok loaded =>
    rw [hload] at hwords
    exact ⟨loaded, rfl, Option.some.inj hwords⟩

/-- The word of plain letters gives no token, as it is written. -/
theorem listed_the_gives_no_token :
    (Analyzer.analyze (EnglishAnalyzer.new ⟨["i\u0307stanbul", "the", "οδος"]⟩) "The").1 = some [] := by
  obtain ⟨loaded, hload, hwords⟩ := load_mixedList
  have hlists : WordList.Lists mixedList "The".toList :=
    ⟨"The".toByteArray.toList, by decide +kernel, "The", by decide +kernel, by decide, by decide, by decide⟩
  have ha : (EnglishAnalyzer.new ⟨["i\u0307stanbul", "the", "οδος"]⟩).stopwords = loaded.words := hwords.symm
  have h := listed_word_gives_no_token .empty rfl hload hlists (List.all_eq_true.1 (by decide)) ha
  refine h.2.2.2 ?_
  rintro (hdot | ⟨xs, ys, he, -⟩)
  · exact absurd hdot (by decide)
  · have hsigma : 'Σ' ∈ "The".toList := he ▸ by simp
    exact absurd hsigma (by decide)

/-- The other two words of the list give tokens: the one as it is written, the other in its stored form, too. -/
theorem listed_words_give_tokens : ∃ loaded : LoadedList,
    (WordListCache.empty.load (fun _ => .ok mixedList) "mixed").1 = .ok loaded ∧
      (WordList.Lists mixedList "ΟΔΟΣ".toList ∧ (∀ c ∈ "ΟΔΟΣ".toList, isAlphanumeric c = true) ∧
        (Analyzer.analyze (EnglishAnalyzer.new loaded.words) "ΟΔΟΣ").1 = some ["οδοσ"]) ∧
      (WordList.Lists mixedList "İstanbul".toList ∧ (∀ c ∈ "İstanbul".toList, isAlphanumeric c = true) ∧
        (Analyzer.analyze (EnglishAnalyzer.new loaded.words) "İstanbul").1 = some ["stanbul"] ∧
        (Analyzer.analyze (EnglishAnalyzer.new loaded.words)
          (String.ofList (lowercaseText "İstanbul".toList))).1 = some ["stanbul"]) := by
  obtain ⟨loaded, hload, hwords⟩ := load_mixedList
  refine ⟨loaded, hload, ?_⟩
  rw [hwords]
  refine ⟨⟨?_, List.all_eq_true.1 (by decide), by decide +kernel⟩, ?_, List.all_eq_true.1 (by decide),
    by decide +kernel, by decide +kernel⟩
  · exact ⟨" ΟΔΟΣ ".toByteArray.toList, by decide +kernel, " ΟΔΟΣ ", by decide +kernel, by decide, by decide, by decide⟩
  · exact ⟨"İstanbul".toByteArray.toList, by decide +kernel, "İstanbul", by decide +kernel, by decide, by decide,
      by decide⟩

end ToleranceClustering.Text
