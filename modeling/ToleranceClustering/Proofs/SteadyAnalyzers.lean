import ToleranceClustering.Proofs.PreparationLoans
import ToleranceClustering.Proofs.StockedPools

/-!
# Steady analyzers

An analyzer serves (`Serves`) if what it makes of a text depends on the text alone, however often it was used and reset.
A language table is steady (`Steady`) if building an analyzer of a language always ends alike, with one that serves or
with the same failure.

A preparation over such a table may be used in any way, by batches and by callers who borrow its analyzers (`Reaches`):
its idle analyzers are always as good as new ones (`sound_of_reaches`).
-/

namespace ToleranceClustering.Text

section Analyzers

variable {σ : Type} [Analyzer σ]

/-- What may become of an analyzer by use and resets. -/
inductive Becomes (a : σ) : σ → Prop where
  | refl : Becomes a a
  | analyze {b : σ} (text : String) : Becomes a b → Becomes a (Analyzer.analyze b text).2
  | reset {b c : σ} : Becomes a b → Analyzer.reset b = .done c → Becomes a c

/-- An analyzer that makes these tokens of every text, now and whatever becomes of it. -/
def Serves (tokens : String → List String) (a : σ) : Prop :=
  ∀ b, Becomes a b → ∀ text, (Analyzer.analyze b text).1 = some (tokens text)

theorem Becomes.trans {a b c : σ} (h : Becomes a b) (h' : Becomes b c) : Becomes a c := by
  induction h' with
  | refl => exact h
  | analyze text _ ih => exact ih.analyze text
  | reset _ hr ih => exact ih.reset hr

theorem Serves.of_becomes {tokens : String → List String} {a b : σ} (h : Serves tokens a) (hb : Becomes a b) :
    Serves tokens b :=
  fun c hc text => h c (hb.trans hc) text

/-- A serving analyzer analyzes all texts of a list, each by itself. -/
theorem analyzeAll_of_serves {tokens : String → List String} {a : σ} (h : Serves tokens a) (texts : List String) :
    (analyzeAll a texts).1 = some (texts.map tokens) := by
  induction texts generalizing a with
  | nil => rfl
  | cons text texts ih =>
    have htext := h a Becomes.refl text
    have hrest := ih (h.of_becomes (Becomes.refl.analyze text))
    unfold analyzeAll
    rcases ha : Analyzer.analyze a text with ⟨result, b⟩
    rw [ha] at htext hrest
    subst htext
    simp only
    rcases hb : analyzeAll b texts with ⟨rest, c⟩
    rw [hb] at hrest
    subst hrest
    rfl

theorem becomes_analyzeAll (a : σ) (texts : List String) : Becomes a (analyzeAll a texts).2 := by
  induction texts generalizing a with
  | nil => exact Becomes.refl
  | cons text texts ih =>
    have htext : Becomes a (Analyzer.analyze a text).2 := Becomes.refl.analyze text
    unfold analyzeAll
    rcases ha : Analyzer.analyze a text with ⟨result, b⟩
    rw [ha] at htext
    cases result with
    | none => exact htext
    | some tokens =>
      have hrest := htext.trans (ih b)
      simp only
      rcases hb : analyzeAll b texts with ⟨rest, c⟩
      rw [hb] at hrest
      cases rest <;> exact hrest

/-- The analyzer for plain words serves. -/
theorem serves_generic (a : GenericAnalyzer) : Serves GenericAnalyzer.tokens a :=
  fun _ _ _ => rfl

/-- Building an analyzer of a language always ends alike, as long as the cache is one of these: with an analyzer that
makes the tokens of the language, or with the failure of the language. Building one leaves one of these caches. -/
structure Steady (languages : LanguageTable σ) (loader : Loader) (caches : WordListCache → Prop)
    (outcome : String → Except Failure (String → List String)) : Prop where
  closed : ∀ code cache, caches cache → caches (languages.create code loader cache).2
  built : ∀ code cache tokens, caches cache → outcome code = .ok tokens →
    ∃ a, (languages.create code loader cache).1 = .done a ∧ Serves tokens a
  failed : ∀ code cache f, caches cache → outcome code = .error f → (languages.create code loader cache).1 = .failed f

/-- An analyzer that serves a language. -/
def Fit (outcome : String → Except Failure (String → List String)) (code : String) (a : σ) : Prop :=
  ∃ tokens, outcome code = .ok tokens ∧ Serves tokens a

theorem resetsGood_fit (outcome : String → Except Failure (String → List String)) (code : String) :
    Pool.ResetsGood (Fit outcome code) (Analyzer.reset : σ → Outcome σ) := by
  intro a b ha hr
  obtain ⟨tokens, ho, hs⟩ := ha
  exact ⟨tokens, ho, hs.of_becomes (Becomes.refl.reset hr)⟩

theorem Fit.of_becomes {outcome : String → Except Failure (String → List String)} {code : String} {a b : σ}
    (h : Fit outcome code a) (hb : Becomes a b) : Fit outcome code b := by
  obtain ⟨tokens, ho, hs⟩ := h
  exact ⟨tokens, ho, hs.of_becomes hb⟩

end Analyzers

namespace Preparation

variable {σ : Type}

/-- How many analyzers of a language are lent. -/
def lent (loans : List (String × σ)) (code : String) : Nat := loans.countP fun e => e.1 = code

theorem lent_cons (loans : List (String × σ)) (code other : String) (a : σ) :
    lent ((code, a) :: loans) other = lent loans other + if other = code then 1 else 0 := by
  unfold lent
  rw [List.countP_cons]
  by_cases h : other = code
  · simp [h]
  · simp [h, Ne.symm h]

theorem lent_middle (before after : List (String × σ)) (code other : String) (a : σ) :
    lent (before ++ (code, a) :: after) other = lent (before ++ after) other + if other = code then 1 else 0 := by
  have hcons := lent_cons after code other a
  unfold lent at hcons ⊢
  rw [List.countP_append, List.countP_append, hcons]
  omega

variable [Analyzer σ]

section Keeping

variable {I : Preparation σ → Prop} (hlanguage : ∀ p code texts, I p → I (p.analyzeIn code texts).2)
  (hplain : ∀ p texts, I p → I (p.analyzePlain texts).2)
include hlanguage hplain

/-- What analyzing keeps holds after tokenizing in a language. -/
theorem tokenize_keeps {p : Preparation σ} (h : I p) (code : String) (texts : List String) :
    I (p.tokenize code texts).2 := by
  have ha := hlanguage p code texts h
  unfold tokenize
  generalize p.analyzeIn code texts = r at ha
  obtain ⟨tokens | f | _, q⟩ := r
  · exact ha
  · simp only
    split
    · exact ha
    · cases q.policy.unknownLanguage with
      | fallback => exact hplain q texts ha
      | reject => exact ha
  · exact ha

theorem tokenizeAll_keeps {p : Preparation σ} (h : I p) (docs : List (RawDocument × Position)) (codes : List String) :
    I (p.tokenizeAll docs codes).2 := by
  induction codes generalizing p with
  | nil => exact h
  | cons code codes ih =>
    rw [tokenizeAll_cons]
    generalize (docs.filter fun d => p.languageOf d.1 = code) = group
    have ht := tokenize_keeps hlanguage hplain h code (group.map fun d => d.1.text)
    simp only
    generalize p.tokenize code (group.map fun d => d.1.text) = r at ht
    obtain ⟨tokens | f | _, q⟩ := r
    · exact ih ht
    · exact ht
    · exact ht

theorem prepare_keeps {p : Preparation σ} (h : I p) (raw : List RawDocument) : I (p.prepare raw).2 :=
  tokenizeAll_keeps hlanguage hplain h raw.zipIdx _

end Keeping

/-- What a preparation may come to, with the analyzers lent: batches are prepared, and in between callers borrow
analyzers, use them, and give them back or up. The cache may be shared with others. -/
inductive Reaches (caches : WordListCache → Prop) (start : Preparation σ) :
    List (String × σ) → Preparation σ → Prop where
  | start : Reaches caches start [] start
  | prepare {loans : List (String × σ)} {p : Preparation σ} (raw : List RawDocument) :
      Reaches caches start loans p → Reaches caches start loans (p.prepare raw).2
  | acquire {loans : List (String × σ)} {p : Preparation σ} {code : String} {a : σ} :
      Reaches caches start loans p → (p.acquire code).1 = .done a →
      Reaches caches start ((code, a) :: loans) (p.acquire code).2
  | miss {loans : List (String × σ)} {p : Preparation σ} {code : String} :
      Reaches caches start loans p → (∀ a, (p.acquire code).1 ≠ .done a) → Reaches caches start loans (p.acquire code).2
  | use {before after : List (String × σ)} {p : Preparation σ} {code : String} {a : σ} (text : String) :
      Reaches caches start (before ++ (code, a) :: after) p →
      Reaches caches start (before ++ (code, (Analyzer.analyze a text).2) :: after) p
  | release {before after : List (String × σ)} {p : Preparation σ} {code : String} {a : σ} :
      Reaches caches start (before ++ (code, a) :: after) p → Reaches caches start (before ++ after) (p.release code a)
  | discard {before after : List (String × σ)} {p : Preparation σ} {code : String} {a : σ} :
      Reaches caches start (before ++ (code, a) :: after) p → Reaches caches start (before ++ after) (p.discard code)
  | share {loans : List (String × σ)} {p : Preparation σ} {cache : WordListCache} :
      Reaches caches start loans p → caches cache → Reaches caches start loans { p with cache }

/-- Every pool is stocked with analyzers that serve its language, and the lent ones do so too. -/
structure Sound (start : Preparation σ) (caches : WordListCache → Prop)
    (outcome : String → Except Failure (String → List String)) (loans : List (String × σ)) (p : Preparation σ) :
    Prop where
  setup : start.SameSetup p
  roomy : start.policy.pool.check = .ok ()
  cache : caches p.cache
  languages : ∀ code pool, p.pools.lookup code = some pool →
    pool.Stocked start.policy.pool (Fit outcome code) (lent loans code)
  unopened : ∀ code, p.pools.lookup code = none → lent loans code = 0
  plain : p.plain.Stocked start.policy.pool (fun _ => True) 0
  loans : ∀ e ∈ loans, Fit outcome e.1 e.2

variable {start p q : Preparation σ} {caches : WordListCache → Prop}
  {outcome : String → Except Failure (String → List String)} {loans loans' : List (String × σ)} {code : String}
  {pool pool' : Pool σ}

namespace Sound

/-- A preparation without pools is sound. -/
theorem of_ofPolicy {policy : PreparationPolicy} {languages : LanguageTable σ} {loader : Loader} {cache : WordListCache}
    (h : ofPolicy policy languages loader cache = .ok start) (hc : caches cache)
    (outcome : String → Except Failure (String → List String)) : Sound start caches outcome [] start := by
  obtain ⟨plain, hplain, rfl⟩ := eq_of_ofPolicy h
  refine ⟨⟨rfl, rfl, rfl⟩, Pool.check_of_ofPolicy hplain, hc, nofun, fun _ _ => rfl, ?_, nofun⟩
  rw [Pool.eq_of_ofPolicy hplain]
  exact ⟨Pool.Accounts.empty _, nofun⟩

/-- Finding or opening a pool keeps the preparation sound. -/
theorem of_pool_ok (h : Sound start caches outcome loans p) (hp : p.pool code = .ok (pool, q)) :
    Sound start caches outcome loans q := by
  obtain ⟨-, rfl | ⟨hnone, hopen, rfl⟩⟩ := pool_ok hp
  · exact h
  · have hsetup := h.setup
    refine ⟨⟨hsetup.policy, hsetup.languages, hsetup.loader⟩, h.roomy, h.cache, ?_, ?_, h.plain, h.loans⟩
    · intro other found hfound
      rw [List.lookup_append] at hfound
      cases hl : p.pools.lookup other with
      | some old =>
        rw [hl, Option.some_or] at hfound
        obtain rfl := Option.some.inj hfound
        exact h.languages other old hl
      | none =>
        rw [hl, Option.none_or, List.lookup_cons] at hfound
        cases hother : other == code with
        | false =>
          rw [hother] at hfound
          cases hfound
        | true =>
          rw [hother] at hfound
          obtain rfl := Option.some.inj hfound
          rw [h.unopened other hl, Pool.eq_of_ofPolicy hopen, hsetup.policy]
          exact ⟨Pool.Accounts.empty _, nofun⟩
    · intro other hother
      rw [List.lookup_append] at hother
      exact h.unopened other (Option.or_eq_none_iff.1 hother).1

/-- So does going on with a pool, if the pool and its loans remain good. -/
theorem goOn (h : Sound start caches outcome loans p) (hlookup : p.pools.lookup code = some pool)
    {cache : WordListCache} (hcache : caches cache)
    (hothers : ∀ other, other ≠ code → lent loans' other = lent loans other)
    (hpool : pool'.Stocked start.policy.pool (Fit outcome code) (lent loans' code))
    (hloans : ∀ e ∈ loans', Fit outcome e.1 e.2) : Sound start caches outcome loans' (p.goOn code pool' cache) := by
  have hsetup := h.setup
  refine ⟨⟨hsetup.policy, hsetup.languages, hsetup.loader⟩, h.roomy, hcache, ?_, ?_, h.plain, hloans⟩
  · intro other found hfound
    rw [lookup_goOn hlookup] at hfound
    by_cases ho : other = code
    · rw [if_pos ho] at hfound
      obtain rfl := Option.some.inj hfound
      rw [ho]
      exact hpool
    · rw [if_neg ho] at hfound
      rw [hothers other ho]
      exact h.languages other found hfound
  · intro other hother
    rw [lookup_goOn hlookup] at hother
    by_cases ho : other = code
    · rw [if_pos ho] at hother
      cases hother
    · rw [if_neg ho] at hother
      rw [hothers other ho]
      exact h.unopened other hother

section Building

variable (hs : Steady start.languages start.loader caches outcome)
include hs

/-- What a steady table builds fits its language. -/
theorem buildsGood (h : Sound start caches outcome loans p) (code : String) :
    Pool.BuildsGood (Fit outcome code) (p.builder code) p.cache := by
  intro a cache hb
  rw [builder, h.setup.languages, h.setup.loader] at hb
  cases ho : outcome code with
  | ok tokens =>
    obtain ⟨a', ha', hserves⟩ := hs.built code p.cache tokens h.cache ho
    rw [hb] at ha'
    obtain rfl := Outcome.done.inj ha'
    exact ⟨tokens, ho, hserves⟩
  | error f =>
    have hf := hs.failed code p.cache f h.cache ho
    rw [hb] at hf
    cases hf

theorem caches_acquire (h : Sound start caches outcome loans p) (code : String) (pool : Pool σ) :
    caches (pool.acquire (p.builder code) p.cache).2.2 := by
  obtain hstate | hstate := Pool.acquire_builder pool (p.builder code) p.cache
  · rw [hstate]
    exact h.cache
  · rw [hstate, builder, h.setup.languages, h.setup.loader]
    exact hs.closed code p.cache h.cache

theorem analyzeIn (h : Sound start caches outcome loans p) (code : String) (texts : List String) :
    Sound start caches outcome loans (p.analyzeIn code texts).2 := by
  cases hp : p.pool code with
  | error f =>
    simp only [Preparation.analyzeIn, hp]
    exact h
  | ok found =>
    obtain ⟨pool, q⟩ := found
    have hq := h.of_pool_ok hp
    obtain ⟨hlookup, -⟩ := pool_ok hp
    rw [analyzeIn_of_ok hp]
    refine hq.goOn hlookup ?_ (fun _ _ => rfl) ?_ hq.loans
    · rw [Pool.lend_builder]
      exact hq.caches_acquire hs code pool
    · exact (hq.languages code pool hlookup).lend (hq.buildsGood hs code) (resetsGood_fit outcome code)
        fun a ha => ha.of_becomes (becomes_analyzeAll a texts)

omit hs in
theorem analyzePlain (h : Sound start caches outcome loans p) (texts : List String) :
    Sound start caches outcome loans (p.analyzePlain texts).2 := by
  have hsetup := h.setup
  refine ⟨⟨hsetup.policy, hsetup.languages, hsetup.loader⟩, h.roomy, h.cache, h.languages, h.unopened, ?_, h.loans⟩
  exact h.plain.lend (fun _ _ _ => trivial) (fun _ _ _ _ => trivial) (fun _ _ => trivial)

theorem prepare (h : Sound start caches outcome loans p) (raw : List RawDocument) :
    Sound start caches outcome loans (p.prepare raw).2 :=
  prepare_keeps (fun _ code texts hp => hp.analyzeIn hs code texts) (fun _ texts hp => hp.analyzePlain texts) h raw

/-- Borrowing an analyzer gives one that serves the language. -/
theorem acquire (h : Sound start caches outcome loans p) (code : String) :
    (∀ a, (p.acquire code).1 = .done a → Sound start caches outcome ((code, a) :: loans) (p.acquire code).2) ∧
    ((∀ a, (p.acquire code).1 ≠ .done a) → Sound start caches outcome loans (p.acquire code).2) := by
  cases hp : p.pool code with
  | error f =>
    simp only [Preparation.acquire, hp]
    exact ⟨nofun, fun _ => h⟩
  | ok found =>
    obtain ⟨pool, q⟩ := found
    have hq := h.of_pool_ok hp
    obtain ⟨hlookup, -⟩ := pool_ok hp
    have hcache := hq.caches_acquire hs code pool
    obtain ⟨hdone, hmiss⟩ := (hq.languages code pool hlookup).acquire (hq.buildsGood hs code)
    simp only [Preparation.acquire, hp]
    refine ⟨?_, fun hnone => hq.goOn hlookup hcache (fun _ _ => rfl) (hmiss hnone) hq.loans⟩
    intro a ha
    obtain ⟨hfit, hpool⟩ := hdone a ha
    refine hq.goOn hlookup hcache ?_ ?_ (List.forall_mem_cons.2 ⟨hfit, hq.loans⟩)
    · intro other ho
      rw [lent_cons, if_neg ho, Nat.add_zero]
    · rw [lent_cons, if_pos rfl]
      exact hpool

end Building

section Returning

variable {before after : List (String × σ)} {a : σ}

/-- The pool of a lent analyzer is there. -/
theorem lookup_of_loan (h : Sound start caches outcome (before ++ (code, a) :: after) p) :
    ∃ pool, p.pools.lookup code = some pool ∧
      pool.Stocked start.policy.pool (Fit outcome code) (lent (before ++ after) code + 1) := by
  have hlent := lent_middle before after code code a
  rw [if_pos rfl] at hlent
  cases hl : p.pools.lookup code with
  | none =>
    have hnone := h.unopened code hl
    omega
  | some pool =>
    have hpool := h.languages code pool hl
    rw [hlent] at hpool
    exact ⟨pool, rfl, hpool⟩

/-- A lent analyzer may go, if its pool is told. -/
theorem give (h : Sound start caches outcome (before ++ (code, a) :: after) p)
    (hlookup : p.pools.lookup code = some pool)
    (hpool : pool'.Stocked start.policy.pool (Fit outcome code) (lent (before ++ after) code)) :
    Sound start caches outcome (before ++ after) (p.setPool code pool') := by
  refine h.goOn hlookup h.cache ?_ hpool ?_
  · intro other ho
    rw [lent_middle, if_neg ho, Nat.add_zero]
  · intro e he
    obtain he | he := List.mem_append.1 he
    · exact h.loans e (List.mem_append_left _ he)
    · exact h.loans e (List.mem_append_right _ (List.mem_cons_of_mem _ he))

theorem fit_loan (h : Sound start caches outcome (before ++ (code, a) :: after) p) : Fit outcome code a :=
  h.loans (code, a) (List.mem_append_right _ List.mem_cons_self)

theorem release (h : Sound start caches outcome (before ++ (code, a) :: after) p) :
    Sound start caches outcome (before ++ after) (p.release code a) := by
  obtain ⟨pool, hlookup, hpool⟩ := h.lookup_of_loan
  simp only [Preparation.release, hlookup]
  exact h.give hlookup (hpool.release (resetsGood_fit outcome code) h.fit_loan)

theorem discard (h : Sound start caches outcome (before ++ (code, a) :: after) p) :
    Sound start caches outcome (before ++ after) (p.discard code) := by
  obtain ⟨pool, hlookup, hpool⟩ := h.lookup_of_loan
  simp only [Preparation.discard, hlookup]
  exact h.give hlookup hpool.discard

theorem use (h : Sound start caches outcome (before ++ (code, a) :: after) p) (text : String) :
    Sound start caches outcome (before ++ (code, (Analyzer.analyze a text).2) :: after) p := by
  have hlent : ∀ other, lent (before ++ (code, (Analyzer.analyze a text).2) :: after) other =
      lent (before ++ (code, a) :: after) other := by
    intro other
    rw [lent_middle, lent_middle]
  refine ⟨h.setup, h.roomy, h.cache, ?_, ?_, h.plain, ?_⟩
  · intro other pool hl
    rw [hlent]
    exact h.languages other pool hl
  · intro other hl
    rw [hlent]
    exact h.unopened other hl
  · intro e he
    obtain he | he := List.mem_append.1 he
    · exact h.loans e (List.mem_append_left _ he)
    · obtain rfl | he := List.mem_cons.1 he
      · exact h.fit_loan.of_becomes (Becomes.refl.analyze text)
      · exact h.loans e (List.mem_append_right _ (List.mem_cons_of_mem _ he))

end Returning

end Sound

/-- Whatever is done with a preparation over a steady table, it is sound. -/
theorem sound_of_reaches (hs : Steady start.languages start.loader caches outcome)
    (hstart : Sound start caches outcome [] start) (hr : Reaches caches start loans p) :
    Sound start caches outcome loans p := by
  induction hr with
  | start => exact hstart
  | prepare raw _ ih => exact ih.prepare hs raw
  | @acquire loans p code a _ ha ih => exact (ih.acquire hs code).1 a ha
  | @miss loans p code _ hnone ih => exact (ih.acquire hs code).2 hnone
  | use text _ ih => exact ih.use text
  | release _ ih => exact ih.release
  | discard _ ih => exact ih.discard
  | share _ hc ih =>
    have hsetup := ih.setup
    exact ⟨⟨hsetup.policy, hsetup.languages, hsetup.loader⟩, ih.roomy, hc, ih.languages, ih.unopened, ih.plain,
      ih.loans⟩

end Preparation

end ToleranceClustering.Text
