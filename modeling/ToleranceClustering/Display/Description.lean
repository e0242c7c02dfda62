import ToleranceClustering.Clusterer
import ToleranceClustering.Decimal.Shortest
import ToleranceClustering.Display.Quoted
import ToleranceClustering.Display.Record
import ToleranceClustering.Text.Preparation

/-!
# Descriptions

The one-line texts in which the parts of the library show their state to someone who looks into a running program.
-/

namespace ToleranceClustering

open Display

/-- The name of a similarity. -/
def Similarity.name : Similarity → String
  | geometricMean => "GeometricMean"
  | minimum => "Minimum"
  | harmonicMean => "HarmonicMean"
  | jaccard => "Jaccard"

/-- The name of a weighting. -/
def Weighting.name : Weighting → String
  | frequency => "Frequency"
  | logInverse => "LogTfIdf"
  | linearInverse => "LinearTfIdf"

/-- The seed policy with all its settings. -/
def SeedPolicy.describe (p : SeedPolicy Float) : String :=
  record "SeedSelection" [
    ("min_document_frequency", toString p.minDocuments),
    ("max_document_frequency", Decimal.text p.maxShare),
    ("max_seeds", optional toString p.limit)]

/-- The settings of a run. -/
def Settings.describe (s : Settings Float) : String :=
  record "ClusteringConfig" [
    ("tolerance_threshold", Decimal.text s.tolerance),
    ("min_membership", Decimal.text s.minMembership),
    ("merge_threshold", Decimal.text s.mergeThreshold),
    ("similarity", s.similarity.name),
    ("weighting", s.weighting.name),
    ("max_word_df", Decimal.text s.maxTermShare),
    ("seeds", s.seeds.describe),
    ("min_cluster_size", toString s.minClusterSize),
    ("max_labels", toString s.maxLabels)]

/-- A clusterer: its settings, and whether it interns into the lexicon that all runs share. -/
def Clusterer.describe (k : Clusterer Float) (shared : Bool) : String :=
  partialRecord "TolerantClusterer" [("config", k.settings.describe), ("shared_registry", truth shared)]

/-- The bounds of a pool. -/
def PoolPolicy.describe (p : PoolPolicy) : String :=
  record "PoolConfig" [
    ("max_size", optional toString p.maxSize),
    ("acquire_timeout", optional Duration.text p.patience)]

/-- A pool: its bounds and its counts. -/
def Pool.describe {ω : Type} (p : Pool ω) : String :=
  record "Pool" [
    ("config", p.policy.describe),
    ("in_use", toString p.inUse),
    ("idle", toString p.idle.length),
    ("created", toString p.created),
    ("discarded", toString p.discarded)]

/-- An object on loan, by its own text. -/
def Pool.describeLoan (object : String) : String := wrapped "Pooled" (wrapped "Some" object)

namespace Text

/-- A cache of word lists: how many it holds. -/
def WordListCache.describe (c : WordListCache) : String :=
  partialRecord "ResourceCache" [("cached", toString c.size)]

/-- A language table: its languages. -/
def LanguageTable.describe {σ : Type} (t : LanguageTable σ) : String :=
  record "LanguageTable" [("languages", list (t.languages.map quoted))]

/-- The name of a policy for languages without a usable analyzer. -/
def UnknownLanguage.name : UnknownLanguage → String
  | fallback => "Fallback"
  | reject => "Reject"

/-- The settings of a preparation. -/
def PreparationPolicy.describe (p : PreparationPolicy) : String :=
  record "PreprocessConfig" [
    ("pool", p.pool.describe),
    ("default_language", quoted p.defaultLanguage),
    ("unknown_language", p.unknownLanguage.name)]

/-- A preparation: its settings, its languages, and how many of them have a pool. -/
def Preparation.describe {σ : Type} (p : Preparation σ) : String :=
  partialRecord "Preprocessor" [
    ("config", p.policy.describe),
    ("table", p.languages.describe),
    ("pools", toString p.pools.length)]

end Text

end ToleranceClustering
