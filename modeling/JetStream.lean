import JetStream.Cube.CheckFlush
import JetStream.Cube.Coalescing
import JetStream.Cube.DimensionKey
import JetStream.Aggregates.MergeSummary
import JetStream.Aggregates.SketchMerge
import JetStream.Aggregates.Serialization
import JetStream.Lib.TopK
import JetStream.Dataplane.TPut
import JetStream.Dataplane.TPutRounds
import JetStream.Dataplane.TPutThreshold
import JetStream.Dataplane.TPutExact
import JetStream.Comm.Strands
import JetStream.Aggregates.RangeQuery
import JetStream.Dataplane.TimeSubscriber
import JetStream.Control.QueryPlanner
import JetStream.Control.Controller
import JetStream.Control.HandleAlter
import JetStream.Control.WorkerMap
import JetStream.Control.StopComputation
import JetStream.Dataplane.ConnManager
import JetStream.Dataplane.CubeManager
import JetStream.Dataplane.Node
import JetStream.Dataplane.AlterStages
import JetStream.Dataplane.ChainTables
import JetStream.Dataplane.Announced
import JetStream.Dataplane.NodeInvariant
import JetStream.Dataplane.ChainConnect
import JetStream.Dataplane.AlterRefusal
import JetStream.Dataplane.RefusedStages
import JetStream.Dataplane.AlterRollback
import JetStream.Lib.Float64
import JetStream.Utils.Monitors
import JetStream.Utils.InsertCounter
import JetStream.Dataplane.RateLimit
import JetStream.Dataplane.ChainProcess
import JetStream.Dataplane.AdaptorRegistry
import JetStream.Utils.ReadNumber
import JetStream.Aggregates.Quantile
import JetStream.Query.OperatorSchemas
import JetStream.Dataplane.TypedOperators
import JetStream.Lib.BreadthFirst
import JetStream.Query.QueryGraph
import JetStream.Query.ValidateSchemas
import JetStream.Lib.DisjointSets
import JetStream.Lib.Forest
import JetStream.Control.JSGraph
import JetStream.Control.LcaPairs
import JetStream.Control.SourcesLca
import JetStream.Control.Placement
import JetStream.Control.Descendants
import JetStream.Control.TopoGraph
import JetStream.Control.PlacementPasses
import JetStream.Control.PlacementSpec
import JetStream.Control.PlacementComplete
import JetStream.Control.Colocation
import JetStream.Utils.SmoothingCounter
import JetStream.Dataplane.DelayedOneShot
import JetStream.Control.ConnHandler
import JetStream.Aggregates.ReservoirMerge
import JetStream.Dataplane.RemoteDestSend
import JetStream.Aggregates.BucketSearch
import JetStream.Dataplane.TPutPruning
import JetStream.Dataplane.UpgradeSearch
import JetStream.Dataplane.RatioPolicy
import JetStream.Dataplane.WindowLenFilter
import JetStream.Aggregates.ReservoirUniform
import JetStream.Aggregates.QuantileBrackets
import JetStream.Aggregates.SketchQuantile
import JetStream.Aggregates.MergeSafety
import JetStream.Dataplane.DegradeSummary
import JetStream.Lib.Chunks
import JetStream.Cube.MysqlCube
import JetStream.Cube.SaveTupleBatch
import JetStream.Cube.ProcessingInfo
import JetStream.Cube.BatchPaths
import JetStream.Cube.RollupLevels
import JetStream.Cube.ProcessDelta
import JetStream.Lib.Grouping
import JetStream.Cube.TimeRollup
import JetStream.Dataplane.SeqToRatio
import JetStream.Utils.ReadInts
import JetStream.Dataplane.CSVParse
import JetStream.Lib.Worklist
import JetStream.Control.Exploration
import JetStream.Lib.DisjointForest
import JetStream.Control.LcaTurns
import JetStream.Control.LcaVisits
import JetStream.Control.LcaRoots
import JetStream.Control.PlanPasses
import JetStream.Control.Planning
import JetStream.Dataplane.ChainWalk
import JetStream.Dataplane.ChainBuilding
import JetStream.Dataplane.ChainEdges
import JetStream.Comm.BlockingReads
import JetStream.Lib.Interning
import JetStream.Cube.ImmutStr
import JetStream.Lib.Comparison
import JetStream.Cube.HierStrCmp
import JetStream.Aggregates.SketchShifts
import JetStream.Lib.TextStream
import JetStream.Dataplane.CSVRow
import JetStream.Cube.MasstreeCube
import JetStream.Cube.MasstreeExact
import JetStream.Cube.MasstreeRuns
import JetStream.Lib.Ranking
import JetStream.Cube.SortDimension
import JetStream.Lib.AsyncOperation
import JetStream.Lib.ListSum
import JetStream.Comm.ClientConnection
import JetStream.Comm.ConnectionCalls
import JetStream.Comm.ConnectionFailover
import JetStream.Comm.ServerConnection
import JetStream.Dataplane.TimerSource
import JetStream.Dataplane.FixedRateQueue
import JetStream.Dataplane.FileSource
import JetStream.Lib.PrefixCode
import JetStream.Comm.ReceiveSide
import JetStream.Comm.Link
import JetStream.Dataplane.IncomingConnection
import JetStream.Dataplane.RemoteEdge
import JetStream.Dataplane.Relay
import JetStream.Lib.Sweep
import JetStream.Query.GraphBuilder
import JetStream.Query.CloneBack
import JetStream.Query.BuilderRuns
import JetStream.Query.Deploy
import JetStream.Dataplane.VariableSampling
