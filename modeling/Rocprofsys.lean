import Rocprofsys.Base.Absorption
import Rocprofsys.Base.Aggregate
import Rocprofsys.Base.Agreeing
import Rocprofsys.Base.Archive
import Rocprofsys.Base.Attempt
import Rocprofsys.Base.Blocks
import Rocprofsys.Base.Chunks
import Rocprofsys.Base.Combinations
import Rocprofsys.Base.Compaction
import Rocprofsys.Base.ComparedSet
import Rocprofsys.Base.Completion
import Rocprofsys.Base.Cursor
import Rocprofsys.Base.Decimal
import Rocprofsys.Base.Decoder
import Rocprofsys.Base.Delimited
import Rocprofsys.Base.DoWhile
import Rocprofsys.Base.Double
import Rocprofsys.Base.Emission
import Rocprofsys.Base.Files
import Rocprofsys.Base.FloorWalk
import Rocprofsys.Base.Gather
import Rocprofsys.Base.Grouping
import Rocprofsys.Base.Interleaving
import Rocprofsys.Base.Json
import Rocprofsys.Base.KeyedFold
import Rocprofsys.Base.KeyedSet
import Rocprofsys.Base.LastOf
import Rocprofsys.Base.LittleEndian
import Rocprofsys.Base.Md5
import Rocprofsys.Base.Merging
import Rocprofsys.Base.NearestDouble
import Rocprofsys.Base.Numeral
import Rocprofsys.Base.OrderedSet
import Rocprofsys.Base.Pairing
import Rocprofsys.Base.Pieces
import Rocprofsys.Base.Positions
import Rocprofsys.Base.Progression
import Rocprofsys.Base.Reader
import Rocprofsys.Base.Reported
import Rocprofsys.Base.Ring
import Rocprofsys.Base.RingLog
import Rocprofsys.Base.Rounding
import Rocprofsys.Base.Run
import Rocprofsys.Base.Samples
import Rocprofsys.Base.SignificantBits
import Rocprofsys.Base.SortedBy
import Rocprofsys.Base.Sql
import Rocprofsys.Base.SqlReading
import Rocprofsys.Base.StringView
import Rocprofsys.Base.Tables
import Rocprofsys.Base.Tally
import Rocprofsys.Base.Tiling
import Rocprofsys.Base.Tokens
import Rocprofsys.Base.WeakOrder
import Rocprofsys.Binary.AddressMultirange
import Rocprofsys.Binary.AddressRanges
import Rocprofsys.Binary.DwarfEntries
import Rocprofsys.Binary.RangeOrder
import Rocprofsys.Binary.RangeSets
import Rocprofsys.Binary.SymbolOrder
import Rocprofsys.Binary.SymbolRanges
import Rocprofsys.Causal.BinaryInfo
import Rocprofsys.Causal.Delay
import Rocprofsys.Causal.DelayBound
import Rocprofsys.Causal.ExperimentScaling
import Rocprofsys.Causal.ExperimentWindow
import Rocprofsys.Causal.LineInfo
import Rocprofsys.Causal.ProgressBundles
import Rocprofsys.Causal.ProgressPoint
import Rocprofsys.Causal.ProgressStack
import Rocprofsys.Causal.RunMatrix
import Rocprofsys.Causal.ScopeFilters
import Rocprofsys.Common.Consolidate
import Rocprofsys.Common.Delimit
import Rocprofsys.Common.Environment
import Rocprofsys.Common.Md5Digest
import Rocprofsys.Common.Md5Transform
import Rocprofsys.Common.Md5sum
import Rocprofsys.Common.UpdateEnv
import Rocprofsys.Components.BacktraceMetrics
import Rocprofsys.Components.CommData
import Rocprofsys.Components.CommExact
import Rocprofsys.Components.CommTotals
import Rocprofsys.Components.MpiGotcha
import Rocprofsys.Container.StableVector
import Rocprofsys.Container.StableVectorRefinement
import Rocprofsys.Container.StaticVector
import Rocprofsys.Core.AgentManager
import Rocprofsys.Core.CpuCids
import Rocprofsys.Core.Demangler
import Rocprofsys.Core.PerfettoFilename
import Rocprofsys.Core.ThreadState
import Rocprofsys.Coverage.Counts
import Rocprofsys.Coverage.Details
import Rocprofsys.Coverage.PostProcess
import Rocprofsys.Coverage.RowOrder
import Rocprofsys.Coverage.Summary
import Rocprofsys.CpuFreq.Configure
import Rocprofsys.CpuFreq.Frequencies
import Rocprofsys.CpuFreq.ProcessUsage
import Rocprofsys.Dl.Forwarding
import Rocprofsys.Dl.GateCount
import Rocprofsys.Dl.ThreadTrace
import Rocprofsys.Gpu.AmdSmi
import Rocprofsys.Gpu.AmdSmiAgreement
import Rocprofsys.Gpu.AmdSmiAttribution
import Rocprofsys.Gpu.AmdSmiCounters
import Rocprofsys.Gpu.AmdSmiDevices
import Rocprofsys.Gpu.AmdSmiDirect
import Rocprofsys.Gpu.AmdSmiDisagreement
import Rocprofsys.Gpu.AmdSmiEngines
import Rocprofsys.Gpu.AmdSmiLabels
import Rocprofsys.Gpu.AmdSmiLayout
import Rocprofsys.Gpu.AmdSmiReplay
import Rocprofsys.Gpu.AmdSmiTracks
import Rocprofsys.Gpu.GpuMetrics
import Rocprofsys.Gpu.GpuMetricsOverflow
import Rocprofsys.Gpu.GpuMetricsReads
import Rocprofsys.Gpu.GpuMetricsRoundTrip
import Rocprofsys.Gpu.GpuMetricsSafety
import Rocprofsys.Instrument.BatchInsertion
import Rocprofsys.Instrument.FunctionLists
import Rocprofsys.Instrument.InstructionExclude
import Rocprofsys.Instrument.ModuleFunction
import Rocprofsys.Instrument.UserSelection
import Rocprofsys.Perf.RingIterator
import Rocprofsys.Python.CausalTable
import Rocprofsys.Python.CozTable
import Rocprofsys.Python.Profiler
import Rocprofsys.Rocpd.DataProcessor
import Rocprofsys.Rocpd.IdRegistries
import Rocprofsys.Rocpd.InsertFaithful
import Rocprofsys.Rocpd.InsertQuery
import Rocprofsys.Rocpd.Processor
import Rocprofsys.Rocpd.ProcessorIntegrity
import Rocprofsys.Rocpd.ProcessorState
import Rocprofsys.Rocpd.ProcessorView
import Rocprofsys.Rocpd.SampleIntegrity
import Rocprofsys.Rocpd.Schema
import Rocprofsys.Sampling.InlinedLines
import Rocprofsys.Sampling.MetricTracks
import Rocprofsys.Sampling.OffloadIntervals
import Rocprofsys.Sampling.TimerData
import Rocprofsys.Sdk.AgentProfile
import Rocprofsys.Sdk.Collector
import Rocprofsys.Sdk.CounterRecords
import Rocprofsys.Sdk.MarkerRanges
import Rocprofsys.Sdk.OmptEvents
import Rocprofsys.Sdk.Operations
import Rocprofsys.Sdk.Pipeline
import Rocprofsys.Sdk.ProfileSelection
import Rocprofsys.ThreadData.Growth
import Rocprofsys.ThreadData.GrowthInvariant
import Rocprofsys.ThreadData.LateCreation
import Rocprofsys.ThreadData.ThreadInfo
import Rocprofsys.ThreadData.ThreadLookup
import Rocprofsys.ThreadData.ThreadRegistry
import Rocprofsys.TraceCache.ArgumentString
import Rocprofsys.TraceCache.BufferStorage
import Rocprofsys.TraceCache.CacheFile
import Rocprofsys.TraceCache.CacheFiles
import Rocprofsys.TraceCache.CacheRefinement
import Rocprofsys.TraceCache.Cacheable
import Rocprofsys.TraceCache.CallbackNames
import Rocprofsys.TraceCache.CategoryRegion
import Rocprofsys.TraceCache.ConcurrentStore
import Rocprofsys.TraceCache.FlushComplete
import Rocprofsys.TraceCache.FlushShutdown
import Rocprofsys.TraceCache.FlushWorker
import Rocprofsys.TraceCache.MetadataLoading
import Rocprofsys.TraceCache.MetadataRegistry
import Rocprofsys.TraceCache.MetadataRoundTrip
import Rocprofsys.TraceCache.ParserSafety
import Rocprofsys.TraceCache.PostProcess
import Rocprofsys.TraceCache.PostProcessRun
import Rocprofsys.TraceCache.RegionNesting
import Rocprofsys.TraceCache.ReserveBounds
import Rocprofsys.TraceCache.SampleRoundTrip
import Rocprofsys.TraceCache.SampleType
import Rocprofsys.TraceCache.StorageLog
import Rocprofsys.TraceCache.StorageParser
import Rocprofsys.TraceCache.StoreAndFlush
import Rocprofsys.Tracing.CategoryStack
import Rocprofsys.Utility.NumericRange
import Rocprofsys.Utility.RangeItems
import Rocprofsys.Utility.RangeTermination
import Rocprofsys.Utility.RangeValues
