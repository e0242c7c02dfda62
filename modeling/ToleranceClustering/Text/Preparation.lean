import ToleranceClustering.Document
import ToleranceClustering.Text.Language

/-!
# Preparing documents

Raw documents become documents by the analyzers of their languages. Every language has a pool of analyzers, made on
first use; a batch borrows one analyzer for each of its languages, one after the other, and gives it back before the
next, whatever happens in between.

Documents whose language has no usable analyzer are tokenized as plain words, or left without tokens.
-/

namespace ToleranceClustering.Text

/-- What becomes of documents in a language without a usable analyzer. -/
inductive UnknownLanguage where
  /-- Their words are the tokens. -/
  | fallback
  /-- They have no tokens. -/
  | reject
deriving DecidableEq, Repr

/-- The settings of a preparation. -/
structure PreparationPolicy where
  /-- For the pool of each language. -/
  pool : PoolPolicy
  /-- The language of documents without a code. -/
  defaultLanguage : String
  unknownLanguage : UnknownLanguage
deriving DecidableEq, Repr

namespace PreparationPolicy

/-- The usual settings: unbounded pools, English, and plain words for unknown languages. -/
def standard : PreparationPolicy := ⟨PoolPolicy.unbounded, "en", .fallback⟩

/-- The pools have room, and the default language is not blank. -/
def check (p : PreparationPolicy) : Except Failure Unit := do
  p.pool.check
  Failure.unless (!(trim p.defaultLanguage.toList).isEmpty) "default_language" "must be non-empty"

end PreparationPolicy

/-- The analyzers of all languages: how they are built, what word lists were read, and the pools. -/
structure Preparation (σ : Type) where
  policy : PreparationPolicy
  languages : LanguageTable σ
  loader : Loader
  cache : WordListCache
  /-- The pools made so far, by language code. -/
  pools : List (String × Pool σ)
  /-- The analyzers for plain words. -/
  plain : Pool GenericAnalyzer

namespace Preparation

variable {σ : Type}

/-- A preparation without any analyzer yet, refused if its policy is out of range. -/
def ofPolicy (policy : PreparationPolicy) (languages : LanguageTable σ) (loader : Loader) (cache : WordListCache) :
    Except Failure (Preparation σ) := do
  policy.check
  let plain ← Pool.ofPolicy policy.pool
  return { policy, languages, loader, cache, pools := [], plain }

/-- The pools with that of a language replaced. -/
def setPool (p : Preparation σ) (code : String) (pool : Pool σ) : Preparation σ :=
  { p with pools := p.pools.map fun e => if e.1 = code then (code, pool) else e }

/-- The pool of a language, made if there is none yet. A language that is not supported has no pool. -/
def pool (p : Preparation σ) (code : String) : Except Failure (Pool σ × Preparation σ) := do
  match p.pools.lookup code with
  | some pool => return (pool, p)
  | none =>
    if !p.languages.supports code then throw (.unsupportedLanguage code)
    let pool ← Pool.ofPolicy p.policy.pool
    return (pool, { p with pools := p.pools ++ [(code, pool)] })

/-- How an analyzer of a language is built. -/
def builder (p : Preparation σ) (code : String) : Builder WordListCache σ := p.languages.create code p.loader

variable [Analyzer σ]

/-- Borrows an analyzer of a language. -/
def acquire (p : Preparation σ) (code : String) : Outcome σ × Preparation σ :=
  match p.pool code with
  | .error f => (.failed f, p)
  | .ok (pool, p) =>
    let (result, pool, cache) := pool.acquire (p.builder code) p.cache
    (result, { p.setPool code pool with cache })

/-- Takes an analyzer of a language back. -/
def release (p : Preparation σ) (code : String) (a : σ) : Preparation σ :=
  match p.pools.lookup code with
  | some pool => p.setPool code (pool.release Analyzer.reset a)
  | none => p

/-- Drops a lent analyzer of a language. -/
def discard (p : Preparation σ) (code : String) : Preparation σ :=
  match p.pools.lookup code with
  | some pool => p.setPool code pool.discard
  | none => p

/-- The tokens of some texts by the analyzer of a language. -/
def analyzeIn (p : Preparation σ) (code : String) (texts : List String) :
    Outcome (List (List String)) × Preparation σ :=
  match p.pool code with
  | .error f => (.failed f, p)
  | .ok (pool, p) =>
    let (result, pool, cache) :=
      pool.lend (p.builder code) p.cache Analyzer.reset fun a => analyzeAll a texts
    (result, { p.setPool code pool with cache })

/-- The plain words of some texts. -/
def analyzePlain (p : Preparation σ) (texts : List String) : Outcome (List (List String)) × Preparation σ :=
  let (result, plain, _) :=
    p.plain.lend (fun s => (.done GenericAnalyzer.new, s)) () Analyzer.reset fun a => analyzeAll a texts
  (result, { p with plain })

/-- The tokens of some texts in one language, under the policy for languages without a usable analyzer. -/
def tokenize (p : Preparation σ) (code : String) (texts : List String) :
    Outcome (List (List String)) × Preparation σ :=
  match p.analyzeIn code texts with
  | (.failed f, p) =>
    if !f.permitsSubstitute then (.failed f, p)
    else match p.policy.unknownLanguage with
      | .fallback => p.analyzePlain texts
      | .reject => (.done (texts.map fun _ => []), p)
  | result => result

/-- The language of a document. -/
def languageOf (p : Preparation σ) (d : RawDocument) : String := d.language.getD p.policy.defaultLanguage

/-- Tokenizes the documents of some languages, one language after the other, each document with its position; the
first language that fails ends it. -/
def tokenizeAll (p : Preparation σ) (docs : List (RawDocument × Position)) :
    List String → Outcome (List (Position × List String)) × Preparation σ
  | [] => (.done [], p)
  | code :: codes =>
    let group := docs.filter fun d => p.languageOf d.1 = code
    match p.tokenize code (group.map fun d => d.1.text) with
    | (.done tokens, p) =>
      match p.tokenizeAll docs codes with
      | (.done rest, p) => (.done ((group.map Prod.snd).zip tokens ++ rest), p)
      | result => result
    | (.failed f, p) => (.failed f, p)
    | (.crashed, p) => (.crashed, p)

/-- The documents of a batch, in its order. Languages are served in ascending order of their codes. -/
def prepare (p : Preparation σ) (raw : List RawDocument) : Outcome (List Document) × Preparation σ :=
  let codes := (WordSet.ofList (raw.map p.languageOf)).words
  let (result, p) := p.tokenizeAll raw.zipIdx codes
  (result.map fun tokens => raw.zipIdx.map fun d =>
    { id := d.1.id, tokens := (tokens.lookup d.2).getD [], text := some d.1.text }, p)

end Preparation

end ToleranceClustering.Text
