import Madlib.Lib.Loop
import Madlib.Lib.MachineInt
import Madlib.Lib.RunLength
import Madlib.Lib.Dyadic
import Madlib.Lib.Blocks
import Madlib.Lib.Call
import Madlib.Lib.CallLog
import Madlib.Lib.Tally
import Madlib.Backend
import Madlib.Svec.CountCode
import Madlib.Svec.SparseData
import Madlib.Svec.Elementwise
import Madlib.Svec.SparseVector
import Madlib.Svec.Concat
import Madlib.Svec.Constructors
import Madlib.Svec.Pivot
import Madlib.Svec.EigenBridge
import Madlib.Svec.Operators
import Madlib.Svec.Comparison
import Madlib.Svec.TextIO
import Madlib.Svec.Equality
import Madlib.Svec.Hash
import Madlib.Svec.BinaryIO
import Madlib.Svec.ArrayCast
import Madlib.Svec.ArrayEquality
import Madlib.Svec.Slices
import Madlib.Svec.Median
import Madlib.Svec.Stored
import Madlib.Svec.Frame
import Madlib.Svec.Termination
import Madlib.Svec.Overlap
import Madlib.Sketch.DyadicRanges
import Madlib.Sketch.RangeCover
import Madlib.Sketch.RangeEnds
import Madlib.Sketch.Countmin
import Madlib.Sketch.DyadicSketch
import Madlib.Sketch.RangeQuery
import Madlib.Sketch.RangeCount
import Madlib.Sketch.CountminMerge
import Madlib.Sketch.Datum
import Madlib.Sketch.Sortasort
import Madlib.Sketch.FmSketch
import Madlib.Sketch.FmDistinct
import Madlib.Sketch.FmMerge
import Madlib.Sketch.FmMergeSmall
import Madlib.Sketch.SortasortRuns
import Madlib.Lib.TopMerge
import Madlib.Sketch.MfvSketch
import Madlib.Sketch.MfvMerge
import Madlib.Lib.Segments
import Madlib.Dbal
import Madlib.Regress.SummedState
import Madlib.Regress.Linear
import Madlib.Regress.IterationStep
import Madlib.Regress.Logistic
import Madlib.Regress.LogisticSums
import Madlib.Regress.LogisticAverage
import Madlib.Regress.StateSizes
import Madlib.Lib.Moments
import Madlib.Lib.Arrivals
import Madlib.Stats.OneWayAnova
import Madlib.Stats.AnovaState
import Madlib.Stats.AnovaMerge
import Madlib.Stats.TTest
import Madlib.Stats.ChiSquared
import Madlib.Stats.ChiSquaredMerge
import Madlib.Stats.ChiSquaredStatistic
import Madlib.KernelMachines.LinearSvm
import Madlib.Lib.ThreeValued
import Madlib.Lib.Relation
import Madlib.Bayes.Argmax
import Madlib.Bayes.NaiveBayes
import Madlib.Bayes.FeatureProbs
import Madlib.Bayes.ClassScores
import Madlib.Bayes.Routes
import Madlib.Bayes.Classification
import Madlib.Lib.GreedyNet
import Madlib.Kmeans.Canopies
import Madlib.Lib.Centers
import Madlib.Kmeans.SvecMean
import Madlib.Kmeans.Lloyd
import Madlib.Lib.Levels
import Madlib.Madpack.TopSort
import Madlib.Madpack.Modules
import Madlib.Lib.FrequentList
import Madlib.Sketch.CountminStream
import Madlib.Sketch.MfvSlots
import Madlib.Sketch.MfvTrans
import Madlib.Lib.Impurity
import Madlib.Cart.SplitCriterion
import Madlib.Cart.MergeUnit
import Madlib.Cart.AcsStream
import Madlib.Svec.Subarr
import Madlib.Svec.WholeNumbers
import Madlib.Svec.FeatureHistogram
import Madlib.Svec.Canonical
import Madlib.Svec.Positions
import Madlib.Svec.CastPositions
import Madlib.Svec.Nonbase
import Madlib.Svec.Reductions
import Madlib.Svec.Mean
import Madlib.Svec.Unnest
import Madlib.Lib.TimedSegments
import Madlib.Svec.Count
import Madlib.Svec.CountNonzero
import Madlib.Svec.Splice
import Madlib.Svec.Reversal
import Madlib.Svec.Append
import Madlib.Svec.Accumulate
import Madlib.Lib.OrderStatistic
import Madlib.Svec.Selection
import Madlib.Svec.MedianRank
import Madlib.Lib.WordMemory
import Madlib.Dbconnector.Allocator
import Madlib.Lib.Numeral
import Madlib.Madpack.Version
import Madlib.Lib.Regex
import Madlib.Madpack.ConnectionString
import Madlib.Lib.Statement
import Madlib.AssocRules.ItemSets
import Madlib.AssocRules.RuleGeneration
import Madlib.Regress.IterativeAlg
import Madlib.Regress.GradientPass
import Madlib.Lib.Triangular
import Madlib.Regress.ConjugateStep
import Madlib.Regress.GradientFinal
import Madlib.Lib.BlockArray
import Madlib.KernelMachines.OnlineSvm
import Madlib.KernelMachines.KernelExpansion
import Madlib.KernelMachines.Dimensions
import Madlib.Lib.BestPath
import Madlib.TextfexViterbi.ViterbiTop1
import Madlib.Sketch.MfvFinal
import Madlib.Stats.AnovaGroups
import Madlib.Lib.Midrank
import Madlib.Lib.Extended
import Madlib.Stats.RankSums
import Madlib.Stats.MannWhitney
import Madlib.Stats.SignedRank
import Madlib.Sketch.SetBit
import Madlib.Sketch.SortasortVariable
import Madlib.Lib.Bisection
import Madlib.Lib.Rounding
import Madlib.Lib.Intervals
import Madlib.Sketch.Centile
import Madlib.Sketch.DepthHisto
import Madlib.Lib.FrequentEstimates
import Madlib.Sketch.MfvRoom
import Madlib.Stats.KolmogorovSmirnov
import Madlib.ConjugateGradient.Solver
import Madlib.Quantile.Quantile
import Madlib.Plda.WordTopicCount
import Madlib.Plda.SampleTopics
import Madlib.Plda.PldaTrain
import Madlib.Plda.ConsistentCounts
import Madlib.Plda.PldaTrainCalls
import Madlib.ArrayOps.Reductions
import Madlib.ArrayOps.AccumulatorWord
import Madlib.ArrayOps.Elementwise
import Madlib.Cart.GiniTable
import Madlib.Cart.ClassCounts
import Madlib.Cart.SplitFeatures
import Madlib.Lib.BitString
import Madlib.Sketch.BitScan
import Madlib.Lib.Template
import Madlib.Cart.TextFormat
import Madlib.Cart.TextFormatResult
import Madlib.Lib.Tables
import Madlib.Kmeans.MainLoop
import Madlib.Lib.LevelTables
import Madlib.Cart.TreeTable
import Madlib.Cart.ClassifyInternal
import Madlib.Cart.VoteResult
import Madlib.Lib.BottomUp
import Madlib.Cart.PruneTree
import Madlib.Cart.RepPrune
