import McritSimilarity.Lib.OrderedMap
import McritSimilarity.Lib.Prog
import McritSimilarity.Lib.Machine
import McritSimilarity.Cache.LockedCache
import McritSimilarity.Python.Url
import McritSimilarity.Python.Json
import McritSimilarity.Errors
import McritSimilarity.Config
import McritSimilarity.Client
import McritSimilarity.Settings
import McritSimilarity.Smda
import McritSimilarity.Jobs
import McritSimilarity.Samples
import McritSimilarity.Scoring
import McritSimilarity.Parse
import McritSimilarity.Mapping
import McritSimilarity.Connection
import McritSimilarity.Provider
import McritSimilarity.Session
import McritSimilarity.Python.Strip
import McritSimilarity.SettingsMemory
import McritSimilarity.TokenMigration
import McritSimilarity.Uploads
import McritSimilarity.Builtin
import McritSimilarity.CorpusExport
import McritSimilarity.Lib.EditScript
import McritSimilarity.Lib.Matching
import McritSimilarity.PicBlocks
import McritSimilarity.DiffExplained
import McritSimilarity.Payload
import McritSimilarity.VisitResults
import McritSimilarity.VisitHolds
import McritSimilarity.VisitWaits
import McritSimilarity.SharedSamples
import McritSimilarity.AwaitedCalls
import McritSimilarity.VisitStops
import McritSimilarity.VisitProgress
import McritSimilarity.Cache.SingleFlight
import McritSimilarity.Lib.TwoRuns
import McritSimilarity.ServerProcess
import McritSimilarity.Coherence
import McritSimilarity.OffsetLookup
import McritSimilarity.AlikeVisits
import McritSimilarity.NewSession
import McritSimilarity.Export
import McritSimilarity.Cache.WeightedLru
import McritSimilarity.MalformedPayloads
import McritSimilarity.Lib.Exclusive
import McritSimilarity.SharedQuery
import McritSimilarity.MatchOnlyEntities
import McritSimilarity.Python.UrlJoin
import McritSimilarity.Requests
import McritSimilarity.TokenOrigin
import McritSimilarity.Lib.Faults
import McritSimilarity.MalformedAnswers
import McritSimilarity.MalformedDocuments
import McritSimilarity.TargetLookup
import McritSimilarity.Lib.Files
import McritSimilarity.Lib.Protocol
import McritSimilarity.CorpusWrites
import McritSimilarity.Lib.FileFrames
import McritSimilarity.AtomicStores
import McritSimilarity.DiskStages
import McritSimilarity.IdenticalFunctions
import McritSimilarity.Lib.TopTwo
import McritSimilarity.Lib.Completes
import McritSimilarity.JobPolling
import McritSimilarity.IndexedSamples
import McritSimilarity.Lib.Ensures
import McritSimilarity.Render
import McritSimilarity.ExportProcess
import McritSimilarity.ExportKeys
import McritSimilarity.CandidateStats
import McritSimilarity.RankedCandidates
import McritSimilarity.AddressEncodings
import McritSimilarity.CorpusLabels
import McritSimilarity.AppliedNames
import McritSimilarity.PaintedRanges
import McritSimilarity.LeftoverPairs
import McritSimilarity.PrunedFolder
import McritSimilarity.ReportLoads
import McritSimilarity.ReportBuilds
import McritSimilarity.StaleMisses
import McritSimilarity.StaleBlocks
import McritSimilarity.DiskCopies
import McritSimilarity.LastExport
import McritSimilarity.GcPause
import McritSimilarity.AnchoredDigests
import McritSimilarity.Lib.MatchingBlocks
import McritSimilarity.QuickBounds
import McritSimilarity.Lib.TimedFiles
import McritSimilarity.ReportTable
import McritSimilarity.DiskRefinement
import McritSimilarity.FolderRefinement
import McritSimilarity.Lib.Inlined
import McritSimilarity.Retries
import McritSimilarity.Lib.Resources
import McritSimilarity.UiThread
import McritSimilarity.Lib.Costs
import McritSimilarity.RenderBudget
import McritSimilarity.OwnServer
import McritSimilarity.Cache.AtomicCalls
import McritSimilarity.Lib.Spins
import McritSimilarity.VisitEnds
import McritSimilarity.VisitCosts
