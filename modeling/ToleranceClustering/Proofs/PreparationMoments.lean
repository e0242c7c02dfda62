import ToleranceClustering.Proofs.PoolTurns
import ToleranceClustering.Text.Preparation

/-!
# The moments of a batch

Preparing a batch goes through moments: at each, a pool has just been found, or a function of one pool has been called,
and nothing is lent, or one slot or analyzer (`Moment`). `Preparation.moments` lists them, each one turn (`Turn`) after
the one before it, up to the state in which the call ends, however it ends (`run_prepare`).
-/

namespace ToleranceClustering

/-! ## The pools of a preparation -/

namespace Text

/-- Where a batch borrows: from the pool of a language, or from that of the analyzers for plain words. -/
inductive Source where
  | language (code : String)
  | plain
deriving DecidableEq

/-- What is borrowed of a source, if anything is. -/
def Source.loan (source : Source) (busy : Bool) : Option Source := if busy then some source else none

namespace Preparation

variable {σ : Type}

/-- How many objects of a source are in use; of a language without a pool none. -/
def inUse (p : Preparation σ) : Source → Nat
  | .language code => (p.pools.lookup code).elim 0 Pool.inUse
  | .plain => p.plain.inUse

/-- The preparation after a pool of its language and its word lists went on. -/
def goOn (p : Preparation σ) (code : String) (pool : Pool σ) (cache : WordListCache) : Preparation σ :=
  { p.setPool code pool with cache }

theorem lookup_replace (pools : List (String × Pool σ)) (code other : String) (pool : Pool σ) :
    (pools.map fun e => if e.1 = code then (code, pool) else e).lookup other =
      if other = code then (pools.lookup other).map fun _ => pool else pools.lookup other := by
  induction pools with
  | nil => simp
  | cons e es ih =>
    obtain ⟨key, old⟩ := e
    by_cases hkey : key = code
    · subst hkey
      rw [List.map_cons, if_pos rfl, List.lookup_cons, List.lookup_cons, ih]
      by_cases ho : other = key
      · simp [ho]
      · simp [ho, beq_false_of_ne ho]
    · rw [List.map_cons, if_neg hkey, List.lookup_cons, List.lookup_cons, ih]
      by_cases ho : other = key
      · simp [ho, hkey]
      · simp [beq_false_of_ne ho]

/-- Of the pools, only that of the language changes. -/
theorem lookup_goOn {p : Preparation σ} {code : String} {old : Pool σ} (h : p.pools.lookup code = some old)
    (pool : Pool σ) (cache : WordListCache) (other : String) :
    (p.goOn code pool cache).pools.lookup other = if other = code then some pool else p.pools.lookup other := by
  refine (lookup_replace p.pools code other pool).trans ?_
  by_cases ho : other = code
  · rw [if_pos ho, if_pos ho, ho, h, Option.map_some]
  · rw [if_neg ho, if_neg ho]

theorem goOn_goOn (p : Preparation σ) (code : String) (pool pool' : Pool σ) (cache cache' : WordListCache) :
    (p.goOn code pool cache).goOn code pool' cache' = p.goOn code pool' cache' := by
  unfold goOn setPool
  simp only [List.map_map]
  congr 2
  funext e
  by_cases he : e.1 = code <;> simp [he]

/-- A new preparation has no pool of a language yet. -/
theorem eq_of_ofPolicy {p : Preparation σ} {policy : PreparationPolicy} {languages : LanguageTable σ} {loader : Loader}
    {cache : WordListCache} (h : ofPolicy policy languages loader cache = .ok p) :
    ∃ plain, Pool.ofPolicy policy.pool = .ok plain ∧ p = ⟨policy, languages, loader, cache, [], plain⟩ := by
  unfold ofPolicy at h
  cases hcheck : policy.check with
  | error f =>
    rw [hcheck] at h
    cases h
  | ok u =>
    cases hplain : (Pool.ofPolicy policy.pool : Except Failure (Pool GenericAnalyzer)) with
    | error f =>
      rw [hcheck, hplain] at h
      cases h
    | ok plain =>
      rw [hcheck, hplain] at h
      exact ⟨plain, rfl, (Except.ok.inj h).symm⟩

/-- Asking for the pool of a language finds it, or opens it where there was none. -/
theorem pool_ok {p q : Preparation σ} {code : String} {pool : Pool σ} (h : p.pool code = .ok (pool, q)) :
    q.pools.lookup code = some pool ∧
      (q = p ∨ p.pools.lookup code = none ∧ Pool.ofPolicy p.policy.pool = .ok pool ∧
        q = { p with pools := p.pools ++ [(code, pool)] }) := by
  unfold Preparation.pool at h
  split at h
  · rename_i found hfound
    obtain ⟨rfl, rfl⟩ := Prod.mk.inj (Except.ok.inj h)
    exact ⟨hfound, Or.inl rfl⟩
  · rename_i hnone
    cases hs : p.languages.supports code with
    | false =>
      rw [hs] at h
      cases h
    | true =>
      rw [hs] at h
      cases ho : (Pool.ofPolicy p.policy.pool : Except Failure (Pool σ)) with
      | error f =>
        rw [ho] at h
        cases h
      | ok opened =>
        rw [ho] at h
        obtain ⟨rfl, rfl⟩ := Prod.mk.inj (Except.ok.inj h)
        refine ⟨?_, Or.inr ⟨hnone, rfl, rfl⟩⟩
        rw [List.lookup_append, hnone]
        simp

end Preparation

/-! ## The moments of a batch -/

/-- The pools, and what has been borrowed of them and not been given back yet. -/
structure Moment (σ : Type) where
  state : Preparation σ
  loan : Option Source

/-- How many objects of a source are lent at a moment. -/
def Moment.held {σ : Type} (m : Moment σ) (source : Source) : Nat := if m.loan = some source then 1 else 0

/-- From one moment to the next a pool is found or opened, or a function of one pool is called. -/
inductive Turn {σ : Type} : Moment σ → Moment σ → Prop where
  | find {p q : Preparation σ} {code : String} {pool : Pool σ} : p.pool code = .ok (pool, q) → Turn ⟨p, none⟩ ⟨q, none⟩
  | language {p : Preparation σ} {code : String} {pool pool' : Pool σ} {before after : Bool} (cache : WordListCache) :
      p.pools.lookup code = some pool → Pool.Turn pool before pool' after →
      Turn ⟨p, (Source.language code).loan before⟩ ⟨p.goOn code pool' cache, (Source.language code).loan after⟩
  | plain {p : Preparation σ} {pool' : Pool GenericAnalyzer} {before after : Bool} :
      Pool.Turn p.plain before pool' after →
      Turn ⟨p, Source.plain.loan before⟩ ⟨{ p with plain := pool' }, Source.plain.loan after⟩

namespace Preparation

variable {σ : Type}

/-- The moment of a phase of the pool of a language. -/
def languageMoment (p : Preparation σ) (code : String) (x : Pool.Phase WordListCache σ) : Moment σ :=
  ⟨p.goOn code x.pool x.builder, (Source.language code).loan x.busy⟩

/-- The moment of a phase of the pool for plain words. -/
def plainMoment (p : Preparation σ) (x : Pool.Phase Unit GenericAnalyzer) : Moment σ :=
  ⟨{ p with plain := x.pool }, Source.plain.loan x.busy⟩

/-- The moments of taking some texts as plain words. -/
def analyzePlainMoments (p : Preparation σ) (texts : List String) : List (Moment σ) :=
  (p.plain.lendPhases (fun s => (.done GenericAnalyzer.new, s)) () Analyzer.reset fun a => analyzeAll a texts).map
    p.plainMoment

/-- The languages of a batch, ascending. -/
def codes (p : Preparation σ) (raw : List RawDocument) : List String := (WordSet.ofList (raw.map p.languageOf)).words

/-- Once found, the pool of a language goes on turn by turn. -/
theorem turn_languageMoment {q : Preparation σ} {code : String} {pool : Pool σ} (h : q.pools.lookup code = some pool)
    {x y : Pool.Phase WordListCache σ} (hxy : x.Follows y) :
    Turn (q.languageMoment code x) (q.languageMoment code y) := by
  have hfound := lookup_goOn h x.pool x.builder code
  rw [if_pos rfl] at hfound
  have hturn := Turn.language y.builder hfound hxy
  rw [goOn_goOn] at hturn
  exact hturn

theorem run_analyzePlain (p : Preparation σ) (texts : List String) :
    Run Turn ⟨p, none⟩ (p.analyzePlainMoments texts) ⟨(p.analyzePlain texts).2, none⟩ := by
  have hlend := Pool.run_lend p.plain (fun s => (.done GenericAnalyzer.new, s)) () Analyzer.reset
    fun a => analyzeAll a texts
  refine hlend.map (f := p.plainMoment) ?_
  intro x y hxy
  exact Turn.plain (p := { p with plain := x.pool }) hxy

variable [Analyzer σ]

/-- The moments of analyzing some texts in a language. -/
def analyzeInMoments (p : Preparation σ) (code : String) (texts : List String) : List (Moment σ) :=
  match p.pool code with
  | .error _ => []
  | .ok (pool, p) =>
    ⟨p, none⟩ :: (pool.lendPhases (p.builder code) p.cache Analyzer.reset fun a => analyzeAll a texts).map
      (p.languageMoment code)

/-- The moments of tokenizing some texts in a language. -/
def tokenizeMoments (p : Preparation σ) (code : String) (texts : List String) : List (Moment σ) :=
  p.analyzeInMoments code texts ++
    match p.analyzeIn code texts with
    | (.failed f, p) =>
      if !f.permitsSubstitute then []
      else match p.policy.unknownLanguage with
        | .fallback => p.analyzePlainMoments texts
        | .reject => []
    | _ => []

/-- The moments of tokenizing the documents of some languages. -/
def tokenizeAllMoments (p : Preparation σ) (docs : List (RawDocument × Position)) : List String → List (Moment σ)
  | [] => []
  | code :: codes =>
    let texts := (docs.filter fun d => p.languageOf d.1 = code).map fun d => d.1.text
    p.tokenizeMoments code texts ++
      match p.tokenize code texts with
      | (.done _, p) => p.tokenizeAllMoments docs codes
      | _ => []

/-- The moments of preparing a batch. -/
def moments (p : Preparation σ) (raw : List RawDocument) : List (Moment σ) :=
  p.tokenizeAllMoments raw.zipIdx (p.codes raw)

theorem analyzeIn_of_ok {p q : Preparation σ} {code : String} {pool : Pool σ} (h : p.pool code = .ok (pool, q))
    (texts : List String) :
    p.analyzeIn code texts =
      let r := pool.lend (q.builder code) q.cache Analyzer.reset fun a => analyzeAll a texts
      (r.1, q.goOn code r.2.1 r.2.2) := by
  simp only [analyzeIn, h]
  rfl

theorem run_analyzeIn (p : Preparation σ) (code : String) (texts : List String) :
    Run Turn ⟨p, none⟩ (p.analyzeInMoments code texts) ⟨(p.analyzeIn code texts).2, none⟩ := by
  cases h : p.pool code with
  | error f =>
    simp only [analyzeInMoments, analyzeIn, h]
    exact Run.stop _
  | ok found =>
    obtain ⟨pool, q⟩ := found
    obtain ⟨hlookup, -⟩ := pool_ok h
    have hlend := Pool.run_lend pool (q.builder code) q.cache Analyzer.reset fun a => analyzeAll a texts
    rw [analyzeIn_of_ok h]
    simp only [analyzeInMoments, h]
    refine Run.next (Turn.find h) (hlend.mapFrom (f := q.languageMoment code) ?_ ?_ (Pool.lendPhases_ne_nil _ _ _ _ _))
    · intro y hy
      exact Turn.language y.builder hlookup hy
    · intro x y hxy
      exact turn_languageMoment hlookup hxy

theorem run_tokenize (p : Preparation σ) (code : String) (texts : List String) :
    Run Turn ⟨p, none⟩ (p.tokenizeMoments code texts) ⟨(p.tokenize code texts).2, none⟩ := by
  refine (run_analyzeIn p code texts).append ?_
  unfold tokenize
  rcases p.analyzeIn code texts with ⟨tokens | f | _, q⟩
  · exact Run.stop _
  · simp only
    split
    · exact Run.stop _
    · cases q.policy.unknownLanguage with
      | fallback => exact run_analyzePlain q texts
      | reject => exact Run.stop _
  · exact Run.stop _

/-- The documents of a language are tokenized before those of the other languages. -/
theorem tokenizeAll_cons (p : Preparation σ) (docs : List (RawDocument × Position)) (code : String)
    (codes : List String) :
    p.tokenizeAll docs (code :: codes) =
      let group := docs.filter fun d => p.languageOf d.1 = code
      match p.tokenize code (group.map fun d => d.1.text) with
      | (.done tokens, q) =>
        ((q.tokenizeAll docs codes).1.map fun rest => (group.map Prod.snd).zip tokens ++ rest,
          (q.tokenizeAll docs codes).2)
      | (.failed f, q) => (.failed f, q)
      | (.crashed, q) => (.crashed, q) := by
  simp only [tokenizeAll]
  rcases p.tokenize code _ with ⟨tokens | f | _, q⟩
  · simp only
    rcases q.tokenizeAll docs codes with ⟨rest | f | _, r⟩ <;> rfl
  · rfl
  · rfl

theorem run_tokenizeAll (p : Preparation σ) (docs : List (RawDocument × Position)) (codes : List String) :
    Run Turn ⟨p, none⟩ (p.tokenizeAllMoments docs codes) ⟨(p.tokenizeAll docs codes).2, none⟩ := by
  induction codes generalizing p with
  | nil => exact Run.stop _
  | cons code codes ih =>
    refine (run_tokenize p code _).append ?_
    rw [tokenizeAll_cons]
    simp only
    rcases p.tokenize code _ with ⟨tokens | f | _, q⟩
    · exact ih q
    · exact Run.stop _
    · exact Run.stop _

/-- Preparing a batch goes through its moments, and at the end nothing is lent. -/
theorem run_prepare (p : Preparation σ) (raw : List RawDocument) :
    Run Turn ⟨p, none⟩ (p.moments raw) ⟨(p.prepare raw).2, none⟩ :=
  run_tokenizeAll p raw.zipIdx (p.codes raw)

end Preparation

end Text

end ToleranceClustering
