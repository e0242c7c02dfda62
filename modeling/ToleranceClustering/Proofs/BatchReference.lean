import ToleranceClustering.Proofs.SteadyAnalyzers
import ToleranceClustering.Proofs.WordSets

/-!
# The tokens of a batch

Over a steady language table, with pools that are not exhausted, the tokens of a document are what its language makes of
its text (`tokensOf`), whatever else is in the batch and whatever was done before; or the batch fails with the first
language, by code, whose analyzers cannot be built for a reason that permits no substitute (`fatal?`).

One language at a time (`tokenize_eq`), then all languages (`tokenizeAll_eq`), then the documents by their positions
(`lookup_entries`).
-/

namespace ToleranceClustering.Text

/-! ## What a language makes of a text -/

/-- The failure of a language that ends a batch, if it has one. -/
def fatal? (outcome : String → Except Failure (String → List String)) (code : String) : Option Failure :=
  match outcome code with
  | .ok _ => none
  | .error f => if f.permitsSubstitute then none else some f

/-- The tokens of a text in a language: those of the language's analyzers, or what the policy substitutes for them. -/
def tokensOf (policy : PreparationPolicy) (outcome : String → Except Failure (String → List String))
    (code text : String) : List String :=
  match outcome code with
  | .ok tokens => tokens text
  | .error _ =>
    match policy.unknownLanguage with
    | .fallback => GenericAnalyzer.tokens text
    | .reject => []

/-- The language of a document, by the policy. -/
def codeOf (policy : PreparationPolicy) (d : RawDocument) : String := d.language.getD policy.defaultLanguage

/-- In an ascending list, the first code with a value is the smallest one. -/
theorem findSome?_eq_some_of_ascending {g : String → Option Failure} {codes : List String} (h : codes.Pairwise (· < ·))
    {f : Failure} :
    codes.findSome? g = some f ↔ ∃ code ∈ codes, g code = some f ∧ ∀ other ∈ codes, other < code → g other = none := by
  induction codes with
  | nil => simp
  | cons c cs ih =>
    obtain ⟨hc, hcs⟩ := List.pairwise_cons.1 h
    rw [List.findSome?_cons]
    cases hg : g c with
    | some f' =>
      constructor
      · intro hf
        refine ⟨c, List.mem_cons_self, hg.trans hf, ?_⟩
        intro other ho hlt
        obtain rfl | ho := List.mem_cons.1 ho
        · exact absurd hlt (String.lt_irrefl _)
        · exact absurd (String.lt_trans hlt (hc other ho)) (String.lt_irrefl _)
      · rintro ⟨code, hcode, hf, hsmaller⟩
        obtain rfl | hcode := List.mem_cons.1 hcode
        · exact hg.symm.trans hf
        · have hnone := hsmaller c List.mem_cons_self (hc code hcode)
          rw [hg] at hnone
          cases hnone
    | none =>
      simp only
      rw [ih hcs]
      constructor
      · rintro ⟨code, hcode, hf, hsmaller⟩
        refine ⟨code, List.mem_cons_of_mem _ hcode, hf, ?_⟩
        intro other ho hlt
        obtain rfl | ho := List.mem_cons.1 ho
        · exact hg
        · exact hsmaller other ho hlt
      · rintro ⟨code, hcode, hf, hsmaller⟩
        obtain rfl | hcode := List.mem_cons.1 hcode
        · rw [hg] at hf
          cases hf
        · exact ⟨code, hcode, hf, fun other ho hlt => hsmaller other (List.mem_cons_of_mem _ ho) hlt⟩

/-- The tokens of the documents in a language, with their positions. -/
def entries (policy : PreparationPolicy) (outcome : String → Except Failure (String → List String))
    (docs : List (RawDocument × Position)) (code : String) : List (Position × List String) :=
  (docs.filter fun d => codeOf policy d.1 = code).map fun d => (d.2, tokensOf policy outcome code d.1.text)

theorem lookup_eq_some {l : List (Position × List String)} {k : Position} {v : List String} (hmem : ∃ e ∈ l, e.1 = k)
    (huniq : ∀ e ∈ l, e.1 = k → e.2 = v) : l.lookup k = some v := by
  induction l with
  | nil =>
    obtain ⟨e, he, -⟩ := hmem
    cases he
  | cons e es ih =>
    rw [List.lookup_cons]
    by_cases hk : k = e.1
    · rw [hk, beq_self_eq_true, huniq e List.mem_cons_self hk.symm]
    · rw [beq_false_of_ne hk]
      obtain ⟨e', he', hk'⟩ := hmem
      obtain rfl | he' := List.mem_cons.1 he'
      · exact absurd hk'.symm hk
      · exact ih ⟨e', he', hk'⟩ fun e'' he'' => huniq e'' (List.mem_cons_of_mem _ he'')

/-- The tokens of a document are found at its position, if its language is among the codes. -/
theorem lookup_entries {policy : PreparationPolicy} {outcome : String → Except Failure (String → List String)}
    {raw : List RawDocument} {codes : List String} {d : RawDocument × Position} (hd : d ∈ raw.zipIdx)
    (hcode : codeOf policy d.1 ∈ codes) :
    (codes.flatMap (entries policy outcome raw.zipIdx)).lookup d.2 =
      some (tokensOf policy outcome (codeOf policy d.1) d.1.text) := by
  refine lookup_eq_some ?_ ?_
  · refine ⟨_, List.mem_flatMap.2 ⟨_, hcode, List.mem_map.2 ⟨d, List.mem_filter.2 ⟨hd, ?_⟩, rfl⟩⟩, rfl⟩
    exact decide_eq_true rfl
  · intro e he hpos
    obtain ⟨code, -, he⟩ := List.mem_flatMap.1 he
    obtain ⟨d', hd', rfl⟩ := List.mem_map.1 he
    obtain ⟨hd', hlanguage⟩ := List.mem_filter.1 hd'
    have hdoc : d'.1 = d.1 := by
      have h' := List.mem_zipIdx_iff_getElem?.1 hd'
      rw [show d'.2 = d.2 from hpos, List.mem_zipIdx_iff_getElem?.1 hd] at h'
      exact (Option.some.inj h').symm
    rw [← of_decide_eq_true hlanguage, hdoc]

namespace Preparation

variable {σ : Type} [Analyzer σ] {start p q : Preparation σ} {caches : WordListCache → Prop}
  {outcome : String → Except Failure (String → List String)} {loans : List (String × σ)}

/-- No pool is exhausted. -/
structure Available (p : Preparation σ) : Prop where
  languages : ∀ code pool, p.pools.lookup code = some pool → pool.checkout ≠ .exhausted
  plain : p.plain.checkout ≠ .exhausted

namespace Sound

/-- Pools are available as long as less is in use than their bound. -/
theorem available_iff (h : Sound start caches outcome loans p) :
    p.Available ↔ ∀ source n, start.policy.pool.maxSize = some n → p.inUse source < n := by
  constructor
  · rintro ⟨hlanguages, hplain⟩ source n hn
    cases source with
    | plain => exact h.plain.checkout_ne_exhausted_iff.1 hplain n hn
    | language code =>
      simp only [inUse]
      cases hl : p.pools.lookup code with
      | some pool => exact (h.languages code pool hl).checkout_ne_exhausted_iff.1 (hlanguages code pool hl) n hn
      | none =>
        have hroomy := h.roomy
        rw [PoolPolicy.check, hn] at hroomy
        cases n with
        | zero => cases hroomy
        | succ n => exact Nat.succ_pos n
  · intro hroom
    refine ⟨?_, h.plain.checkout_ne_exhausted_iff.2 (hroom .plain)⟩
    intro code pool hl
    have hcode := hroom (.language code)
    rw [inUse, hl] at hcode
    exact (h.languages code pool hl).checkout_ne_exhausted_iff.2 hcode

/-- A run at whose ends nothing is lent leaves the pools available. -/
theorem available_of_run (h : Sound start caches outcome loans p) (h' : Sound start caches outcome loans q)
    {ms : List (Moment σ)} (hrun : Run Turn ⟨p, none⟩ ms ⟨q, none⟩) (hp : p.Available) : q.Available := by
  obtain ⟨-, hcounts⟩ := hrun.keeps (I := fun m => ∀ source, m.state.inUse source = p.inUse source + m.held source)
    (fun _ _ hturn hm => counts_of_turn hturn hm) (fun _ => rfl)
  rw [h'.available_iff]
  intro source n hn
  have huse : q.inUse source = p.inUse source := hcounts source
  rw [huse]
  exact h.available_iff.1 hp source n hn

variable (hs : Steady start.languages start.loader caches outcome)
include hs

/-- A language without a factory has the outcome of that. -/
theorem outcome_of_unsupported (h : Sound start caches outcome loans p) {code : String}
    (hno : p.languages.supports code = false) : outcome code = .error (.unsupportedLanguage code) := by
  have hcreate : (start.languages.create code start.loader p.cache).1 = .failed (.unsupportedLanguage code) := by
    rw [h.setup.languages] at hno
    unfold LanguageTable.create
    unfold LanguageTable.supports at hno
    rw [Option.isSome_eq_false_iff, Option.isNone_iff_eq_none] at hno
    rw [hno]
  cases ho : outcome code with
  | ok tokens =>
    obtain ⟨a, ha, -⟩ := hs.built code p.cache tokens h.cache ho
    rw [hcreate] at ha
    cases ha
  | error f =>
    have hf := hs.failed code p.cache f h.cache ho
    rw [hcreate] at hf
    rw [Outcome.failed.inj hf]

/-- Analyzing in a language ends as building an analyzer of it. -/
theorem analyzeIn_eq (h : Sound start caches outcome loans p) (ha : p.Available) (code : String) (texts : List String) :
    (p.analyzeIn code texts).1 =
      match outcome code with
      | .ok tokens => .done (texts.map tokens)
      | .error f => .failed f := by
  cases hp : p.pool code with
  | error f =>
    simp only [Preparation.analyzeIn, hp]
    obtain ⟨hno, rfl⟩ | hcheck := pool_error hp
    · rw [h.outcome_of_unsupported hs hno]
    · rw [h.setup.policy, h.roomy] at hcheck
      cases hcheck
  | ok found =>
    obtain ⟨pool, q⟩ := found
    have hq := h.of_pool_ok hp
    have haq := h.available_of_run hq (Run.next (Turn.find hp) (Run.stop _)) ha
    obtain ⟨hlookup, -⟩ := pool_ok hp
    have hstock := hq.languages code pool hlookup
    have hfree := haq.languages code pool hlookup
    have hsetup := hq.setup
    rw [analyzeIn_of_ok hp]
    cases ho : outcome code with
    | ok tokens =>
      obtain ⟨a, hbuild, hserves⟩ := hs.built code q.cache tokens hq.cache ho
      rw [← hsetup.languages, ← hsetup.loader] at hbuild
      refine Pool.lend_done hstock hfree hbuild ⟨tokens, ho, hserves⟩ ?_
      rintro b ⟨tokens', ho', hserves'⟩
      rw [ho] at ho'
      obtain rfl := Except.ok.inj ho'
      exact analyzeAll_of_serves hserves' texts
    | error f =>
      have hbuild := hs.failed code q.cache f hq.cache ho
      rw [← hsetup.languages, ← hsetup.loader] at hbuild
      refine Pool.lend_failed_of_none hstock hfree ?_ hbuild
      rintro b ⟨tokens, ho', -⟩
      rw [ho] at ho'
      cases ho'

omit hs in
theorem analyzePlain_eq (h : Sound start caches outcome loans p) (ha : p.Available) (texts : List String) :
    (p.analyzePlain texts).1 = .done (texts.map GenericAnalyzer.tokens) :=
  Pool.lend_done h.plain ha.plain rfl trivial fun a _ => analyzeAll_of_serves (serves_generic a) texts

/-- Tokenizing in a language ends with its fatal failure, or else with the tokens of the language for each text. -/
theorem tokenize_eq (h : Sound start caches outcome loans p) (ha : p.Available) (code : String) (texts : List String) :
    (p.tokenize code texts).1 =
      match fatal? outcome code with
      | some f => .failed f
      | none => .done (texts.map (tokensOf start.policy outcome code)) := by
  have hanalyze := h.analyzeIn_eq hs ha code texts
  have hq := h.analyzeIn hs code texts
  have haq := h.available_of_run hq (run_analyzeIn p code texts) ha
  unfold Preparation.tokenize fatal? tokensOf
  cases ho : outcome code with
  | ok tokens =>
    rw [ho] at hanalyze
    generalize p.analyzeIn code texts = r at hanalyze
    obtain ⟨result, q⟩ := r
    obtain rfl : result = _ := hanalyze
    rfl
  | error f =>
    rw [ho] at hanalyze
    generalize p.analyzeIn code texts = r at hanalyze hq haq
    obtain ⟨result, q⟩ := r
    obtain rfl : result = _ := hanalyze
    cases hf : f.permitsSubstitute with
    | false => simp [hf]
    | true =>
      simp only [hf, Bool.not_true, Bool.false_eq_true, if_false, if_true]
      rw [hq.setup.policy]
      cases start.policy.unknownLanguage with
      | fallback => exact hq.analyzePlain_eq haq texts
      | reject => rfl

/-- Tokenizing in all languages ends with the first fatal failure, or else with the tokens of each language. -/
theorem tokenizeAll_eq (h : Sound start caches outcome loans p) (ha : p.Available)
    (docs : List (RawDocument × Position)) (codes : List String) :
    (p.tokenizeAll docs codes).1 =
      match codes.findSome? (fatal? outcome) with
      | some f => .failed f
      | none => .done (codes.flatMap (entries start.policy outcome docs)) := by
  induction codes generalizing p with
  | nil => rfl
  | cons code codes ih =>
    have hlanguage : (fun d : RawDocument × Position => decide (p.languageOf d.1 = code)) =
        fun d => decide (codeOf start.policy d.1 = code) := by
      unfold languageOf codeOf
      rw [h.setup.policy]
    rw [Preparation.tokenizeAll_cons]
    simp only [List.findSome?_cons, List.flatMap_cons, entries, hlanguage]
    generalize docs.filter (fun d => decide (codeOf start.policy d.1 = code)) = group
    have hresult := h.tokenize_eq hs ha code (group.map fun d => d.1.text)
    have hq := tokenize_keeps (fun _ code texts hp => hp.analyzeIn hs code texts)
      (fun _ texts hp => hp.analyzePlain texts) h code (group.map fun d => d.1.text)
    have haq := h.available_of_run hq (run_tokenize p code _) ha
    generalize p.tokenize code (group.map fun d => d.1.text) = r at hresult hq haq
    obtain ⟨result, q⟩ := r
    obtain rfl : result = _ := hresult
    cases fatal? outcome code with
    | some f => rfl
    | none =>
      simp only [ih hq haq]
      cases codes.findSome? (fatal? outcome) with
      | some f => rfl
      | none =>
        simp only [List.map_map, List.zip_map', Function.comp_apply]
        rfl

end Sound

/-- What a batch may come to: all documents in their order, each with the tokens of its language for its text; or, if
there are languages with a fatal failure, that of the smallest of them. -/
structure MatchesReference (policy : PreparationPolicy) (outcome : String → Except Failure (String → List String))
    (raw : List RawDocument) (result : Outcome (List Document)) : Prop where
  done_iff : ∀ docs, result = .done docs ↔ (∀ d ∈ raw, fatal? outcome (codeOf policy d) = none) ∧
    docs = raw.map fun d =>
      { id := d.id, tokens := tokensOf policy outcome (codeOf policy d) d.text, text := some d.text }
  failed_iff : ∀ f, result = .failed f ↔ ∃ d ∈ raw, fatal? outcome (codeOf policy d) = some f ∧
    ∀ other ∈ raw, codeOf policy other < codeOf policy d → fatal? outcome (codeOf policy other) = none
  not_crashed : result ≠ .crashed

/-- The languages of a batch are served in ascending order, so the first fatal failure is that of the smallest code. -/
theorem findSome?_codes_eq_some_iff (policy : PreparationPolicy)
    (outcome : String → Except Failure (String → List String)) (raw : List RawDocument) (f : Failure) :
    (WordSet.ofList (raw.map (codeOf policy))).words.findSome? (fatal? outcome) = some f ↔
      ∃ d ∈ raw, fatal? outcome (codeOf policy d) = some f ∧
        ∀ other ∈ raw, codeOf policy other < codeOf policy d → fatal? outcome (codeOf policy other) = none := by
  rw [findSome?_eq_some_of_ascending (WordSet.pairwise_ofList _)]
  simp only [WordSet.mem_ofList, List.mem_map, forall_exists_index, and_imp, forall_apply_eq_imp_iff₂]
  constructor
  · rintro ⟨code, ⟨d, hd, rfl⟩, hf, hsmaller⟩
    exact ⟨d, hd, hf, hsmaller⟩
  · rintro ⟨d, hd, hf, hsmaller⟩
    exact ⟨_, ⟨d, hd, rfl⟩, hf, hsmaller⟩

theorem findSome?_codes_eq_none_iff (policy : PreparationPolicy)
    (outcome : String → Except Failure (String → List String)) (raw : List RawDocument) :
    (WordSet.ofList (raw.map (codeOf policy))).words.findSome? (fatal? outcome) = none ↔
      ∀ d ∈ raw, fatal? outcome (codeOf policy d) = none := by
  rw [List.findSome?_eq_none_iff]
  simp only [WordSet.mem_ofList, List.mem_map, forall_exists_index, and_imp, forall_apply_eq_imp_iff₂]

/-- The outcome of a batch, in one equation. -/
theorem Sound.prepare_eq (hs : Steady start.languages start.loader caches outcome)
    (h : Sound start caches outcome loans p) (ha : p.Available) (raw : List RawDocument) :
    (p.prepare raw).1 =
      match (WordSet.ofList (raw.map (codeOf start.policy))).words.findSome? (fatal? outcome) with
      | some f => .failed f
      | none => .done (raw.map fun d =>
          { id := d.id
            tokens := tokensOf start.policy outcome (codeOf start.policy d) d.text
            text := some d.text }) := by
  have hlanguage : p.languageOf = codeOf start.policy := by
    unfold languageOf codeOf
    rw [h.setup.policy]
  simp only [Preparation.prepare, h.tokenizeAll_eq hs ha, hlanguage]
  cases (WordSet.ofList (raw.map (codeOf start.policy))).words.findSome? (fatal? outcome) with
  | some f => rfl
  | none =>
    refine congrArg Outcome.done ?_
    conv =>
      rhs
      rw [← List.zipIdx_map_fst 0 raw, List.map_map]
    refine List.map_congr_left ?_
    intro d hd
    have hcode : codeOf start.policy d.1 ∈ (WordSet.ofList (raw.map (codeOf start.policy))).words :=
      WordSet.mem_ofList.2 (List.mem_map_of_mem (List.fst_mem_of_mem_zipIdx hd))
    rw [lookup_entries hd hcode]
    rfl

/-- Whatever was done with a preparation over a steady table, a batch that finds its pools available comes to what its
documents come to one by one. -/
theorem prepare_matches_reference {policy : PreparationPolicy} {languages : LanguageTable σ} {loader : Loader}
    {cache : WordListCache} (hs : Steady languages loader caches outcome) (hc : caches cache)
    (hstart : ofPolicy policy languages loader cache = .ok start) (hr : Reaches caches start loans p) (ha : p.Available)
    (raw : List RawDocument) : MatchesReference policy outcome raw (p.prepare raw).1 := by
  have hsound := Sound.of_ofPolicy hstart hc outcome
  obtain ⟨plain, -, rfl⟩ := eq_of_ofPolicy hstart
  have hp := sound_of_reaches hs hsound hr
  have hsome := findSome?_codes_eq_some_iff policy outcome raw
  have hnone := findSome?_codes_eq_none_iff policy outcome raw
  rw [hp.prepare_eq hs ha raw]
  cases hf : (WordSet.ofList (raw.map (codeOf policy))).words.findSome? (fatal? outcome) with
  | some f =>
    rw [hf] at hsome hnone
    refine ⟨fun docs => ⟨nofun, ?_⟩, ?_, nofun⟩
    · intro h
      cases hnone.2 h.1
    · intro g
      rw [← hsome, Outcome.failed.injEq, Option.some.injEq]
  | none =>
    rw [hf] at hsome hnone
    refine ⟨?_, fun g => ⟨nofun, ?_⟩, nofun⟩
    · intro docs
      rw [Outcome.done.injEq, eq_comm]
      exact ⟨fun h => ⟨hnone.1 rfl, h⟩, And.right⟩
    · intro h
      cases (hsome g).2 h

end Preparation

/-! ## The built-in language -/

/-- An English analyzer keeps its stopwords, and they decide the tokens. -/
theorem serves_english (a : EnglishAnalyzer) :
    Serves (EnglishAnalyzer.tokens a.stopwords) (StandardAnalyzer.english a) := by
  have hkeeps : ∀ b, Becomes (StandardAnalyzer.english a) b →
      ∃ e : EnglishAnalyzer, b = .english e ∧ e.stopwords = a.stopwords := by
    intro b hb
    induction hb with
    | refl => exact ⟨a, rfl, rfl⟩
    | analyze text _ ih =>
      obtain ⟨e, rfl, he⟩ := ih
      exact ⟨_, rfl, he⟩
    | @reset b c _ hr ih =>
      obtain ⟨e, rfl, he⟩ := ih
      simp only [Analyzer.reset] at hr
      split at hr
      · cases hr
      · obtain rfl := Outcome.done.inj hr
        exact ⟨_, rfl, he⟩
  intro b hb text
  obtain ⟨e, rfl, he⟩ := hkeeps b hb
  rw [← he]
  rfl

/-- The English stopwords that a cache gives, from what it holds or from the loader. -/
def listed (loader : Loader) (cache : WordListCache) : Except Failure WordSet :=
  (cache.load loader englishStopwordList).1.map LoadedList.words

/-- Loading the list does not change what the cache gives. -/
theorem listed_load (loader : Loader) (cache : WordListCache) :
    listed loader (cache.load loader englishStopwordList).2 = listed loader cache := by
  cases hf : cache.find? englishStopwordList with
  | some words => rw [WordListCache.load_of_mem hf]
  | none =>
    cases ho : WordListCache.open? loader englishStopwordList with
    | error f => simp only [WordListCache.load, hf, ho]
    | ok words =>
      have hfound : WordListCache.find? ⟨cache.lists ++ [(englishStopwordList, words)]⟩ englishStopwordList =
          some words := by
        unfold WordListCache.find? at hf ⊢
        rw [List.lookup_append, hf, Option.none_or, List.lookup_cons, beq_self_eq_true]
      simp only [listed, WordListCache.load, hf, ho, hfound]
      rfl

/-- English with these stopwords, or with the failure to read them, and no other language. -/
def standardOutcome (list : Except Failure WordSet) (code : String) : Except Failure (String → List String) :=
  if code = "en" then list.map EnglishAnalyzer.tokens else .error (.unsupportedLanguage code)

/-- Building an English analyzer loads the list. -/
theorem create_english (loader : Loader) (cache : WordListCache) :
    (LanguageTable.standard StandardAnalyzer.english).create "en" loader cache =
      (match (cache.load loader englishStopwordList).1 with
        | .ok loaded => .done (StandardAnalyzer.english (EnglishAnalyzer.new loaded.words))
        | .error f => .failed f,
      (cache.load loader englishStopwordList).2) := by
  have hcreate : (LanguageTable.standard StandardAnalyzer.english).create "en" loader cache =
      AnalyzerFactory.english StandardAnalyzer.english englishStopwordList loader cache := rfl
  rw [hcreate, AnalyzerFactory.english]
  rcases cache.load loader englishStopwordList with ⟨f | loaded, after⟩ <;> rfl

theorem create_of_ne {code : String} (h : code ≠ "en") (loader : Loader) (cache : WordListCache) :
    (LanguageTable.standard StandardAnalyzer.english).create code loader cache =
      (.failed (.unsupportedLanguage code), cache) := by
  have hfactory : (LanguageTable.standard StandardAnalyzer.english).factory? code = none := by
    unfold LanguageTable.factory?
    change List.lookup code [("en", _)] = none
    rw [List.lookup_cons, beq_false_of_ne h, List.lookup_nil]
  simp only [LanguageTable.create, hfactory]

/-- The built-in table is steady, over the caches that give the same stopwords. -/
theorem steady_standard (loader : Loader) (list : Except Failure WordSet) :
    Steady (LanguageTable.standard StandardAnalyzer.english) loader (fun cache => listed loader cache = list)
      (standardOutcome list) where
  closed := by
    intro code cache hc
    by_cases h : code = "en"
    · rw [h, create_english, listed_load]
      exact hc
    · rw [create_of_ne h]
      exact hc
  built := by
    intro code cache tokens hc ho
    by_cases h : code = "en"
    · rw [standardOutcome, if_pos h, ← hc, listed] at ho
      rw [h, create_english]
      cases hl : (cache.load loader englishStopwordList).1 with
      | error f =>
        rw [hl] at ho
        cases ho
      | ok loaded =>
        rw [hl] at ho
        obtain rfl := Except.ok.inj ho
        exact ⟨_, rfl, serves_english (EnglishAnalyzer.new loaded.words)⟩
    · rw [standardOutcome, if_neg h] at ho
      cases ho
  failed := by
    intro code cache f hc ho
    by_cases h : code = "en"
    · rw [standardOutcome, if_pos h, ← hc, listed] at ho
      rw [h, create_english]
      cases hl : (cache.load loader englishStopwordList).1 with
      | error g =>
        rw [hl] at ho
        obtain rfl := Except.error.inj ho
        rfl
      | ok loaded =>
        rw [hl] at ho
        cases ho
    · rw [standardOutcome, if_neg h] at ho
      obtain rfl := Except.error.inj ho
      rw [create_of_ne h]

namespace Preparation

/-- The built-in language, with a list of one stopword to load. -/
def oneStopword : Preparation StandardAnalyzer where
  policy := PreparationPolicy.standard
  languages := LanguageTable.standard StandardAnalyzer.english
  loader := fun _ => .ok (ByteStream.ofString "the\n")
  cache := .empty
  pools := []
  plain := ⟨PoolPolicy.unbounded, [], 0, 0, 0⟩

/-- After another batch, German words are taken as they are, and English ones analyzed. -/
theorem oneStopword_matches_reference :
    ((oneStopword.prepare [⟨0, "Cars", none⟩]).2.prepare [⟨7, "Der Motor", some "de"⟩, ⟨8, "The cars", none⟩]).1 =
      .done [⟨7, ["der", "motor"], some "Der Motor"⟩, ⟨8, ["car"], some "The cars"⟩] := by
  have hlist : listed oneStopword.loader .empty = .ok ⟨["the"]⟩ := by
    have hwords : (listed oneStopword.loader .empty).toOption = some ⟨["the"]⟩ := by decide +kernel
    cases hl : listed oneStopword.loader .empty with
    | error f =>
      rw [hl] at hwords
      cases hwords
    | ok words =>
      rw [hl] at hwords
      exact congrArg Except.ok (Option.some.inj hwords)
  have hs := steady_standard oneStopword.loader (.ok ⟨["the"]⟩)
  have hstart : ofPolicy PreparationPolicy.standard oneStopword.languages oneStopword.loader .empty =
      .ok oneStopword := rfl
  have hr : Reaches (fun cache => listed oneStopword.loader cache = .ok ⟨["the"]⟩) oneStopword [] _ :=
    Reaches.start.prepare [⟨0, "Cars", none⟩]
  have hsound := sound_of_reaches hs (Sound.of_ofPolicy hstart hlist _) hr
  have ha := hsound.available_iff.2 (by intro _ _ hn; cases hn)
  have h := prepare_matches_reference hs hlist hstart hr ha [⟨7, "Der Motor", some "de"⟩, ⟨8, "The cars", none⟩]
  refine (h.done_iff _).2 ⟨?_, rfl⟩
  intro d hd
  obtain rfl | hd := List.mem_cons.1 hd
  · rfl
  · obtain rfl := List.mem_singleton.1 hd
    rfl

end Preparation

end ToleranceClustering.Text
