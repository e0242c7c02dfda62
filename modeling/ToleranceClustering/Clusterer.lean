import ToleranceClustering.Labeling
import ToleranceClustering.Ranking
import ToleranceClustering.Settings

/-!
# Clustering documents

Documents become term vectors, terms a tolerance space, seed terms candidates. Candidates are merged, ranked and
labelled into topics, and what no topic covers is the rest. A run depends on its documents, the settings and the
lexicon alone, and leaves behind nothing but the terms it interned.
-/

namespace ToleranceClustering

/-- Settings that were checked, and a way to label topics. -/
structure Clusterer (α : Type) [Scalar α] where
  settings : Settings α
  accepted : settings.check = .ok ()
  labeler : Labeler α

namespace Clusterer

variable {α : Type} [Scalar α]

/-- The clusterer for some settings, refused if they are out of range. -/
def ofSettings (settings : Settings α) (labeler : Labeler α) : Except Failure (Clusterer α) :=
  match h : settings.check with
  | .ok () => .ok ⟨settings, h, labeler⟩
  | .error f => .error f

/-- The topic of a ranked candidate, not yet labelled. -/
def topicOf (c : Corpus α) (ranked : Candidate α × Score α) : Topic α where
  members := ranked.1.approximation.members.map fun (pos, m) => ⟨c.id pos, pos, m⟩
  seeds := ranked.1.seeds
  terms := ranked.1.approximation.terms
  cohesion := ranked.2.cohesion
  score := ranked.2.score
  labels := []
  label := ""

/-- The topic with its labels. -/
def labelTopic (labeler : Labeler α) (c : Corpus α) (lex : Lexicon) (limit : Nat) (t : Topic α) : Topic α :=
  let labelled := { t with labels := labeler t c lex limit }
  { labelled with label := ", ".intercalate (labelled.labelTerms lex) }

/-- The largest membership that a document reaches in any topic, zero without topics. -/
def bestMembership (c : Corpus α) (topics : List (Topic α)) (pos : Position) : α :=
  (topics.map fun t => membership (c.vector pos) t.terms).foldl Scalar.max 0

/-- The documents that are in no topic, by ascending position. -/
def uncovered (c : Corpus α) (topics : List (Topic α)) : List (Member α) :=
  let covered := topics.flatMap Topic.positions
  ((List.range c.size).filter fun pos => !covered.contains pos).map fun pos =>
    ⟨c.id pos, pos, bestMembership c topics pos⟩

/-- The first candidates of a corpus: one for each seed whose approximation is large enough. -/
def candidates (settings : Settings α) (s : ToleranceSpace α) (c : Corpus α) : List (Candidate α) :=
  let seeds := s.selectSeeds c settings.seeds
  Candidate.ofSeeds seeds (s.approximateSeeds c seeds settings.minMembership) settings.minClusterSize

/-- The clustering of a corpus in its tolerance space. -/
def clusterCorpus (k : Clusterer α) (lex : Lexicon) (c : Corpus α) (s : ToleranceSpace α) : Clustering α :=
  let settings := k.settings
  let rule : MergeRule α := ⟨settings.mergeThreshold, settings.minMembership⟩
  let (merged, merges) := Agglomeration.merge s c rule (candidates settings s c)
  let topics := (Ranking.rank merged).map fun r => labelTopic k.labeler c lex settings.maxLabels (topicOf c r)
  { topics, rest := Topic.rest (uncovered c topics), merges }

/-- The clustering of some documents, and the lexicon afterwards. A run that was cancelled before it began fails as
soon as the terms are interned, unless there is nothing to do. -/
def cluster (k : Clusterer α) (lex : Lexicon) (docs : List Document) (cancelled : Bool) :
    Except Failure (Clustering α) × Lexicon :=
  if docs.isEmpty then (.ok Clustering.empty, lex)
  else
    let (c, lex) := Extraction.extract ⟨k.settings.weighting, k.settings.maxTermShare⟩ lex docs
    if cancelled then (.error .cancelled, lex)
    else match ToleranceSpace.build c k.settings.tolerance k.settings.similarity.measure with
      | .error f => (.error f, lex)
      | .ok s => (.ok (k.clusterCorpus lex c s), lex)

end Clusterer

end ToleranceClustering
