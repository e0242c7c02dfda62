import ToleranceClustering.Proofs.PreparationMoments

/-!
# What a batch borrows

A turn changes the count of a pool by what it changes of the loan (`counts_of_turn`), so at every moment of a batch the
counts are those before it but for the loan, and at its end they are those before it. A batch that finds the pools at
rest leaves them so, and no pool refuses it anything (`exhausted_of_prepare`): it reports an exhausted pool only on
behalf of a factory.
-/

namespace ToleranceClustering

namespace Text

theorem Outcome.of_map_eq_failed {β γ : Type} {r : Outcome β} {g : β → γ} {f : Failure} (h : r.map g = .failed f) :
    r = .failed f := by
  cases r with
  | done b => cases h
  | failed cause => exact congrArg Outcome.failed (Outcome.failed.inj h)
  | crashed => cases h

/-! ## What the counts are -/

section Counts

variable {σ : Type} {p q : Preparation σ} {m n : Moment σ}

theorem held_loan (p : Preparation σ) (source other : Source) (busy : Bool) :
    (⟨p, source.loan busy⟩ : Moment σ).held other = if other = source then busy.toNat else 0 := by
  unfold Moment.held Source.loan
  cases busy <;> simp [eq_comm]

/-- A pool just opened has nothing in use. -/
theorem inUse_of_pool_ok {code : String} {pool : Pool σ} (h : p.pool code = .ok (pool, q)) (source : Source) :
    q.inUse source = p.inUse source := by
  obtain ⟨-, rfl | ⟨hnone, hopen, rfl⟩⟩ := Preparation.pool_ok h
  · rfl
  · cases source with
    | plain => rfl
    | language other =>
      simp only [Preparation.inUse, List.lookup_append, Pool.eq_of_ofPolicy hopen]
      cases p.pools.lookup other with
      | some pool => rfl
      | none =>
        rw [Option.none_or, List.lookup_cons]
        cases other == code <;> rfl

/-- From moment to moment a count changes by what has been borrowed or given back. -/
theorem counts_of_turn {base : Source → Nat} (h : Turn m n)
    (hm : ∀ source, m.state.inUse source = base source + m.held source) :
    ∀ source, n.state.inUse source = base source + n.held source := by
  cases h with
  | find hfind =>
    intro source
    exact (inUse_of_pool_ok hfind source).trans (hm source)
  | @language p code pool pool' before after cache hlookup hturn =>
    intro source
    have hsource := hm source
    rw [held_loan] at hsource ⊢
    by_cases hs : source = .language code
    · subst hs
      rw [if_pos rfl] at hsource ⊢
      simp only [Preparation.inUse, Preparation.lookup_goOn hlookup, hlookup, Option.elim_some, if_true] at hsource ⊢
      have hcount := hturn.inUse (by omega)
      omega
    · rw [if_neg hs] at hsource ⊢
      rw [← hsource]
      cases source with
      | plain => rfl
      | language other =>
        have hother : other ≠ code := fun he => hs (congrArg Source.language he)
        simp only [Preparation.inUse, Preparation.lookup_goOn hlookup, if_neg hother]
  | @plain p pool' before after hturn =>
    intro source
    have hsource := hm source
    rw [held_loan] at hsource ⊢
    by_cases hs : source = .plain
    · subst hs
      rw [if_pos rfl] at hsource ⊢
      simp only [Preparation.inUse] at hsource ⊢
      have hcount := hturn.inUse (by omega)
      omega
    · rw [if_neg hs] at hsource ⊢
      rw [← hsource]
      cases source with
      | plain => exact absurd rfl hs
      | language other => rfl

/-- The policy of the pool of a source, if there is one. -/
def Preparation.policyOf (p : Preparation σ) : Source → Option PoolPolicy
  | .language code => (p.pools.lookup code).map Pool.policy
  | .plain => some p.plain.policy

/-- Every pool has room for one object at least. -/
def Preparation.Roomy (p : Preparation σ) : Prop :=
  ∀ source policy, p.policyOf source = some policy → policy.check = .ok ()

/-- The settings, the factories and the loader are the same. -/
structure Preparation.SameSetup (p q : Preparation σ) : Prop where
  policy : q.policy = p.policy
  languages : q.languages = p.languages
  loader : q.loader = p.loader

/-- A pool is opened only where the policy leaves room. -/
theorem roomy_of_pool_ok {code : String} {pool : Pool σ} (h : p.pool code = .ok (pool, q)) (hp : p.Roomy) :
    q.Roomy := by
  obtain ⟨-, rfl | ⟨hnone, hopen, rfl⟩⟩ := Preparation.pool_ok h
  · exact hp
  · intro source policy hpolicy
    cases source with
    | plain => exact hp .plain policy hpolicy
    | language other =>
      cases hl : p.pools.lookup other with
      | some old =>
        refine hp (.language other) policy ?_
        simp only [Preparation.policyOf, List.lookup_append, hl, Option.some_or] at hpolicy ⊢
        exact hpolicy
      | none =>
        simp only [Preparation.policyOf, List.lookup_append, hl, Option.none_or, List.lookup_cons] at hpolicy
        cases hother : other == code with
        | false =>
          rw [hother] at hpolicy
          cases hpolicy
        | true =>
          rw [hother, Pool.eq_of_ofPolicy hopen] at hpolicy
          obtain rfl := Option.some.inj hpolicy
          exact Pool.check_of_ofPolicy hopen

/-- No function of a pool changes its policy. -/
theorem roomy_of_turn (h : Turn m n) (hm : m.state.Roomy) : n.state.Roomy := by
  cases h with
  | find hfind => exact roomy_of_pool_ok hfind hm
  | @language p code pool pool' before after cache hlookup hturn =>
    intro source policy hpolicy
    refine hm source policy ?_
    cases source with
    | plain => exact hpolicy
    | language other =>
      simp only [Preparation.policyOf, Preparation.lookup_goOn hlookup] at hpolicy ⊢
      split at hpolicy
      · rename_i ho
        subst ho
        rw [hlookup, Option.map_some, ← hturn.policy_eq]
        exact hpolicy
      · exact hpolicy
  | plain hturn =>
    intro source policy hpolicy
    refine hm source policy ?_
    cases source with
    | language other => exact hpolicy
    | plain =>
      simp only [Preparation.policyOf] at hpolicy ⊢
      rw [← hturn.policy_eq]
      exact hpolicy

theorem sameSetup_of_turn {start : Preparation σ} (h : Turn m n) (hm : start.SameSetup m.state) :
    start.SameSetup n.state := by
  cases h with
  | find hfind =>
    obtain ⟨-, rfl | ⟨-, -, rfl⟩⟩ := Preparation.pool_ok hfind
    · exact hm
    · exact ⟨hm.policy, hm.languages, hm.loader⟩
  | language cache hlookup hturn => exact ⟨hm.policy, hm.languages, hm.loader⟩
  | plain hturn => exact ⟨hm.policy, hm.languages, hm.loader⟩

end Counts

/-! ## Calls that find the pools at rest -/

namespace Preparation

variable {σ : Type} {p q : Preparation σ}

/-- Nothing is in use, and every pool has room for one object at least. -/
structure AtRest (p : Preparation σ) : Prop where
  unused : ∀ source, p.inUse source = 0
  roomy : p.Roomy

/-- A new preparation is at rest. -/
theorem atRest_of_ofPolicy {policy : PreparationPolicy} {languages : LanguageTable σ} {loader : Loader}
    {cache : WordListCache} (h : ofPolicy policy languages loader cache = .ok p) : p.AtRest := by
  obtain ⟨plain, hplain, rfl⟩ := eq_of_ofPolicy h
  constructor
  · intro source
    cases source with
    | language code => rfl
    | plain => rw [inUse, Pool.eq_of_ofPolicy hplain]
  · intro source policy hpolicy
    cases source with
    | language code => cases hpolicy
    | plain =>
      rw [policyOf, Pool.eq_of_ofPolicy hplain] at hpolicy
      obtain rfl := Option.some.inj hpolicy
      exact Pool.check_of_ofPolicy hplain

/-- A run at whose ends nothing is lent keeps the pools at rest, and the setup. -/
theorem atRest_of_run {ms : List (Moment σ)} (h : Run Turn ⟨p, none⟩ ms ⟨q, none⟩) (hp : p.AtRest) : q.AtRest := by
  obtain ⟨-, hcounts⟩ := h.keeps (I := fun m => ∀ source, m.state.inUse source = 0 + m.held source)
    (fun _ _ hturn hm => counts_of_turn hturn hm) (fun source => (hp.unused source).trans rfl)
  obtain ⟨-, hroomy⟩ := h.keeps (I := fun m => m.state.Roomy) (fun _ _ => roomy_of_turn) hp.roomy
  exact ⟨hcounts, hroomy⟩

theorem sameSetup_of_run {ms : List (Moment σ)} (h : Run Turn ⟨p, none⟩ ms ⟨q, none⟩) : p.SameSetup q :=
  (h.keeps (I := fun m => p.SameSetup m.state) (fun _ _ => sameSetup_of_turn) ⟨rfl, rfl, rfl⟩).2

/-- The pool of a language is refused only to a language without a factory, or by a policy that leaves no room. -/
theorem pool_error {code : String} {f : Failure} (h : p.pool code = .error f) :
    p.languages.supports code = false ∧ f = .unsupportedLanguage code ∨ p.policy.pool.check = .error f := by
  unfold Preparation.pool at h
  split at h
  · cases h
  · cases hs : p.languages.supports code with
    | false =>
      rw [hs] at h
      exact Or.inl ⟨rfl, (Except.error.inj h).symm⟩
    | true =>
      cases hcheck : p.policy.pool.check with
      | ok u =>
        rw [hs, Pool.ofPolicy, hcheck] at h
        cases h
      | error g =>
        rw [hs, Pool.ofPolicy, hcheck] at h
        obtain rfl := Except.error.inj h
        exact Or.inr rfl

/-- It is not refused for being exhausted. -/
theorem pool_ne_exhausted {code : String} {f : Failure} (h : p.pool code = .error f) (waited : Duration) :
    f ≠ .poolExhausted waited := by
  obtain ⟨-, rfl⟩ | hcheck := pool_error h
  · exact nofun
  · unfold PoolPolicy.check Failure.unless at hcheck
    split at hcheck
    · cases hcheck
    · obtain rfl := Except.error.inj hcheck
      exact nofun

/-- At rest, taking texts as plain words does not fail. -/
theorem analyzePlain_ne_failed (hp : p.AtRest) (texts : List String) (f : Failure) :
    (p.analyzePlain texts).1 ≠ .failed f := by
  intro h
  obtain hc | hb := Pool.failed_of_lend (h : (p.plain.lend _ _ _ _).1 = _)
  · exact Pool.checkout_ne_exhausted (hp.unused .plain) (hp.roomy .plain _ rfl) hc
  · cases hb

variable [Analyzer σ]

/-- At rest, analyzing in a language reports an exhausted pool only if that is what building an analyzer did. -/
theorem exhausted_of_analyzeIn (hp : p.AtRest) (code : String) (texts : List String) (waited : Duration)
    (h : (p.analyzeIn code texts).1 = .failed (.poolExhausted waited)) :
    ∃ cache, (p.languages.create code p.loader cache).1 = .failed (.poolExhausted waited) := by
  cases hpool : p.pool code with
  | error f =>
    simp only [analyzeIn, hpool] at h
    exact absurd (Outcome.failed.inj h) (pool_ne_exhausted hpool waited)
  | ok found =>
    obtain ⟨pool, q⟩ := found
    have hfind : Run Turn (⟨p, none⟩ : Moment σ) _ ⟨q, none⟩ := Run.next (Turn.find hpool) (Run.stop _)
    have hrest := atRest_of_run hfind hp
    have hsetup := sameSetup_of_run hfind
    obtain ⟨hlookup, -⟩ := pool_ok hpool
    have huse : pool.inUse = 0 := by
      have huse := hrest.unused (.language code)
      rwa [inUse, hlookup] at huse
    have hcheck : pool.policy.check = .ok () :=
      hrest.roomy (.language code) pool.policy (by rw [policyOf, hlookup]; rfl)
    rw [analyzeIn_of_ok hpool] at h
    obtain hc | hb := Pool.failed_of_lend h
    · exact absurd hc (Pool.checkout_ne_exhausted huse hcheck)
    · rw [builder, hsetup.languages, hsetup.loader] at hb
      exact ⟨q.cache, hb⟩

theorem exhausted_of_tokenize (hp : p.AtRest) (code : String) (texts : List String) (waited : Duration)
    (h : (p.tokenize code texts).1 = .failed (.poolExhausted waited)) :
    ∃ cache, (p.languages.create code p.loader cache).1 = .failed (.poolExhausted waited) := by
  have hanalyze := exhausted_of_analyzeIn hp code texts waited
  have hq := atRest_of_run (run_analyzeIn p code texts) hp
  unfold tokenize at h
  rcases ha : p.analyzeIn code texts with ⟨tokens | f | _, q⟩ <;> rw [ha] at h hanalyze hq
  · cases h
  · simp only at h hanalyze hq
    split at h
    · exact hanalyze h
    · cases hu : q.policy.unknownLanguage with
      | fallback =>
        rw [hu] at h
        exact absurd h (analyzePlain_ne_failed hq texts _)
      | reject =>
        rw [hu] at h
        cases h
  · cases h

theorem exhausted_of_tokenizeAll (hp : p.AtRest) (docs : List (RawDocument × Position)) {codes : List String}
    {waited : Duration} (h : (p.tokenizeAll docs codes).1 = .failed (.poolExhausted waited)) :
    ∃ code ∈ codes, ∃ cache, (p.languages.create code p.loader cache).1 = .failed (.poolExhausted waited) := by
  induction codes generalizing p with
  | nil => cases h
  | cons code codes ih =>
    rw [tokenizeAll_cons] at h
    generalize (docs.filter fun d => p.languageOf d.1 = code) = group at h
    have htokenize := exhausted_of_tokenize hp code (group.map fun d => d.1.text) waited
    have hrun := run_tokenize p code (group.map fun d => d.1.text)
    simp only at h
    rcases ht : p.tokenize code (group.map fun d => d.1.text) with ⟨tokens | f | _, q⟩ <;>
      rw [ht] at h htokenize hrun
    · obtain ⟨other, hother, cache, hc⟩ := ih (atRest_of_run hrun hp) (Outcome.of_map_eq_failed h)
      have hsetup := sameSetup_of_run hrun
      rw [hsetup.languages, hsetup.loader] at hc
      exact ⟨other, List.mem_cons_of_mem _ hother, cache, hc⟩
    · obtain ⟨cache, hc⟩ := htokenize (congrArg Outcome.failed (Outcome.failed.inj h))
      exact ⟨code, List.mem_cons_self, cache, hc⟩
    · cases h

theorem exhausted_of_prepare (hp : p.AtRest) {raw : List RawDocument} {waited : Duration}
    (h : (p.prepare raw).1 = .failed (.poolExhausted waited)) :
    ∃ code ∈ p.codes raw, ∃ cache, (p.languages.create code p.loader cache).1 = .failed (.poolExhausted waited) :=
  exhausted_of_tokenizeAll hp raw.zipIdx (Outcome.of_map_eq_failed h)

/-- The preparation after some batches, each taken up however the one before it ended. -/
def after (p : Preparation σ) (batches : List (List RawDocument)) : Preparation σ :=
  batches.foldl (fun p raw => (p.prepare raw).2) p

theorem atRest_after (hp : p.AtRest) (batches : List (List RawDocument)) : (p.after batches).AtRest := by
  induction batches generalizing p with
  | nil => exact hp
  | cons raw batches ih => exact ih (atRest_of_run (run_prepare p raw) hp)

theorem sameSetup_after (p : Preparation σ) (batches : List (List RawDocument)) : p.SameSetup (p.after batches) := by
  induction batches generalizing p with
  | nil => exact ⟨rfl, rfl, rfl⟩
  | cons raw batches ih =>
    have hfirst := sameSetup_of_run (run_prepare p raw)
    have hrest := ih (p.prepare raw).2
    exact ⟨hrest.policy.trans hfirst.policy, hrest.languages.trans hfirst.languages, hrest.loader.trans hfirst.loader⟩

/-- However a batch ends, every pool has as many objects in use as before; at every moment on the way the counts are
those before the batch but for the one object that may be lent. If the pools are at rest, they are so after any number
of batches, and a batch reports an exhausted pool only if building an analyzer of one of its languages did. -/
theorem prepare_restores_counts (p : Preparation σ) (raw : List RawDocument) :
    Run Turn ⟨p, none⟩ (p.moments raw) ⟨(p.prepare raw).2, none⟩ ∧
    (∀ m ∈ p.moments raw, ∀ source, m.state.inUse source = p.inUse source + m.held source) ∧
    (∀ source, (p.prepare raw).2.inUse source = p.inUse source) ∧
    (p.AtRest → ∀ batches : List (List RawDocument), (p.after batches).AtRest ∧
      ∀ waited, ((p.after batches).prepare raw).1 = .failed (.poolExhausted waited) →
        ∃ code ∈ p.codes raw, ∃ cache,
          (p.languages.create code p.loader cache).1 = .failed (.poolExhausted waited)) := by
  have hrun := run_prepare p raw
  obtain ⟨hmoments, hend⟩ := hrun.keeps (I := fun m => ∀ source, m.state.inUse source = p.inUse source + m.held source)
    (fun _ _ hturn hm => counts_of_turn hturn hm) (fun source => rfl)
  refine ⟨hrun, hmoments, hend, ?_⟩
  intro hp batches
  refine ⟨atRest_after hp batches, ?_⟩
  intro waited hfail
  have hsetup := sameSetup_after p batches
  have hcodes : (p.after batches).codes raw = p.codes raw := by
    unfold codes languageOf
    rw [hsetup.policy]
  obtain ⟨code, hcode, cache, hfactory⟩ := exhausted_of_prepare (atRest_after hp batches) hfail
  rw [hsetup.languages, hsetup.loader] at hfactory
  rw [hcodes] at hcode
  exact ⟨code, hcode, cache, hfactory⟩

/-- An analyzer that crashes on the empty text, and cannot be reset after that. -/
inductive Fuse where
  | whole
  | blown

instance : Analyzer Fuse where
  language _ := "und"
  analyze a text := if text = "" then (none, .blown) else (some [text], a)
  reset
    | .whole => .done .whole
    | .blown => .failed (.other "blown")

/-- Fuses for one language, none for another, and room for one analyzer of each. -/
def fuses : Preparation Fuse where
  policy := ⟨⟨some 1, none⟩, "en", .fallback⟩
  languages := ⟨[("de", .failing .cancelled), ("en", .always .whole)]⟩
  loader := fun name => .error name
  cache := .empty
  pools := []
  plain := ⟨⟨some 1, none⟩, [], 0, 0, 0⟩

/-- A batch crashes in its second text, another one fails with its language's factory, and no count is left behind. -/
theorem fuses_restore_counts :
    fuses.AtRest ∧ (fuses.prepare [⟨0, "a", none⟩, ⟨1, "", none⟩]).1 = .crashed ∧
      (fuses.moments [⟨0, "a", none⟩, ⟨1, "", none⟩]).map Moment.loan =
        [none, some (.language "en"), some (.language "en"), none] ∧
      (fuses.after [[⟨0, "a", none⟩, ⟨1, "", none⟩], [⟨2, "a", some "de"⟩]]).AtRest := by
  have hstart : ofPolicy fuses.policy fuses.languages fuses.loader .empty = .ok fuses := rfl
  have hrest := atRest_of_ofPolicy hstart
  have hbatches := (prepare_restores_counts fuses []).2.2.2 hrest
  exact ⟨hrest, rfl, rfl, (hbatches _).1⟩

end Preparation

end Text

end ToleranceClustering
