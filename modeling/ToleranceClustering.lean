import ToleranceClustering.Agglomeration
import ToleranceClustering.Approximation
import ToleranceClustering.Ascending
import ToleranceClustering.Candidate
import ToleranceClustering.Clusterer
import ToleranceClustering.Corpus
import ToleranceClustering.Decimal.Reading
import ToleranceClustering.Decimal.Shortest
import ToleranceClustering.Display.Description
import ToleranceClustering.Display.Quoted
import ToleranceClustering.Display.Record
import ToleranceClustering.Document
import ToleranceClustering.Duration
import ToleranceClustering.Failure
import ToleranceClustering.Incidence
import ToleranceClustering.Labeling
import ToleranceClustering.Lexicon
import ToleranceClustering.Pool
import ToleranceClustering.Pool.Lending
import ToleranceClustering.Ranking
import ToleranceClustering.Scalar
import ToleranceClustering.Seed
import ToleranceClustering.Settings
import ToleranceClustering.Similarity
import ToleranceClustering.Sorting
import ToleranceClustering.Table
import ToleranceClustering.TermVector
import ToleranceClustering.Text.Analyzer
import ToleranceClustering.Text.Blank
import ToleranceClustering.Text.Case
import ToleranceClustering.Text.CodePoint
import ToleranceClustering.Text.Language
import ToleranceClustering.Text.Letter
import ToleranceClustering.Text.Plural
import ToleranceClustering.Text.Preparation
import ToleranceClustering.Text.Printable
import ToleranceClustering.Text.Stopwords
import ToleranceClustering.Text.Storage
import ToleranceClustering.Text.Word
import ToleranceClustering.Text.WordList
import ToleranceClustering.Text.WordSet
import ToleranceClustering.ToleranceSpace
import ToleranceClustering.Topic
import ToleranceClustering.Weighting
import ToleranceClustering.Proofs.AscendingSets
import ToleranceClustering.Proofs.OverlapTable
import ToleranceClustering.Proofs.MergeLoop
import ToleranceClustering.Proofs.MergeForest
import ToleranceClustering.Proofs.Binary64.Rounding
import ToleranceClustering.Proofs.Binary64.Value
import ToleranceClustering.Proofs.Binary64.Accuracy
import ToleranceClustering.Proofs.Binary64.Arithmetic
import ToleranceClustering.Proofs.Laws
import ToleranceClustering.Proofs.Binary64.Laws
import ToleranceClustering.Proofs.Binary64.Bounds
import ToleranceClustering.Proofs.Binary64.Logarithm
import ToleranceClustering.Proofs.Membership
import ToleranceClustering.Proofs.Postings
import ToleranceClustering.Proofs.Covering
import ToleranceClustering.Proofs.SharedCounts
import ToleranceClustering.Proofs.TolerantTerms
import ToleranceClustering.Proofs.ToleranceRelation
import ToleranceClustering.Proofs.RelationGraph
import ToleranceClustering.Proofs.Extraction
import ToleranceClustering.Proofs.FirstCandidates
import ToleranceClustering.Proofs.ClusterRun
import ToleranceClustering.Proofs.ExtractionReference
import ToleranceClustering.Proofs.RelationSize
import ToleranceClustering.Proofs.FullScan
import ToleranceClustering.Proofs.Topics
import ToleranceClustering.Proofs.Coverage
import ToleranceClustering.Proofs.MergeOutcome
import ToleranceClustering.Proofs.MergeGrowth
import ToleranceClustering.Proofs.LowerThresholds
import ToleranceClustering.Proofs.Borrowing
import ToleranceClustering.Proofs.PoolBalance
import ToleranceClustering.Proofs.PoolObjects
import ToleranceClustering.Proofs.PoolTurns
import ToleranceClustering.Proofs.PreparationMoments
import ToleranceClustering.Proofs.PreparationLoans
import ToleranceClustering.Proofs.StockedPools
import ToleranceClustering.Proofs.SteadyAnalyzers
import ToleranceClustering.Proofs.BatchReference
import ToleranceClustering.Proofs.Contributions
import ToleranceClustering.Proofs.Renumbering
import ToleranceClustering.Proofs.RenumberedRun
import ToleranceClustering.Proofs.NumberedRun
import ToleranceClustering.Proofs.Rerun
import ToleranceClustering.Proofs.LexiconOrder
import ToleranceClustering.Proofs.MergeThreshold
import ToleranceClustering.Proofs.MembershipThreshold
import ToleranceClustering.Proofs.Relocation
import ToleranceClustering.Proofs.RelocatedRun
import ToleranceClustering.Proofs.DocumentOrder
import ToleranceClustering.Proofs.BlankDocuments
import ToleranceClustering.Proofs.Checked.Lookup
import ToleranceClustering.Proofs.Checked.Extraction
import ToleranceClustering.Proofs.Checked.Space
import ToleranceClustering.Proofs.Checked.Approximation
import ToleranceClustering.Proofs.Checked.Agglomeration
import ToleranceClustering.Proofs.Checked.Run
import ToleranceClustering.Proofs.Stems
import ToleranceClustering.Proofs.TokenFilter
import ToleranceClustering.Proofs.LowerCase
import ToleranceClustering.Proofs.ListedWords
import ToleranceClustering.Proofs.StableSorting
import ToleranceClustering.Proofs.RankedNumbers
import ToleranceClustering.Proofs.Binary64.TotalOrder
import ToleranceClustering.Proofs.SeedSelection
import ToleranceClustering.Proofs.ExactMeasures
import ToleranceClustering.Proofs.LabelSelection
import ToleranceClustering.Proofs.TopicOrder
import ToleranceClustering.Proofs.ExactLaws
import ToleranceClustering.Proofs.ExplainedScores
import ToleranceClustering.Proofs.SamePostings
import ToleranceClustering.Proofs.FailedBorrowing
import ToleranceClustering.Proofs.WordSets
import ToleranceClustering.Proofs.SeparatedTexts
import ToleranceClustering.Proofs.WordLines
import ToleranceClustering.Proofs.WordListHistory
import ToleranceClustering.Proofs.SummedWeights
import ToleranceClustering.Proofs.SharedLexicon
import ToleranceClustering.Proofs.RowWorkers
import ToleranceClustering.Proofs.PairedPass
import ToleranceClustering.Proofs.Binary64.Quotients
import ToleranceClustering.Proofs.DocumentOverlap
