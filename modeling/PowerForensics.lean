import PowerForensics.Binary64.Alike
import PowerForensics.Binary64.Basic
import PowerForensics.Binary64.Decimal
import PowerForensics.Binary64.Numeral
import PowerForensics.Binary64.Exact
import PowerForensics.Binary64.Quotient
import PowerForensics.Text.Utf8
import PowerForensics.Text.Lines
import PowerForensics.Text.LittleEndian
import PowerForensics.Text.Framing
import PowerForensics.Core.Ipc
import PowerForensics.Core.Json
import PowerForensics.Core.JsonReader
import PowerForensics.Core.JsonRefinement
import PowerForensics.Core.JsonExtension
import PowerForensics.Core.JsonPrinter
import PowerForensics.Core.JsonText
import PowerForensics.Core.JsonDoc
import PowerForensics.Core.JsonPieces
import PowerForensics.Text.JsonGrammar
import PowerForensics.Core.JsonAcceptance
import PowerForensics.Core.JsonDialect
import PowerForensics.Core.Stats
import PowerForensics.Core.StatsSteps
import PowerForensics.Core.StatsReadings
import PowerForensics.Core.StatsConservation
import PowerForensics.Core.Analyze
import PowerForensics.Agent.Monitor
import PowerForensics.Core.Telemetry
import PowerForensics.Core.Session
import PowerForensics.Core.SessionLoader
import PowerForensics.Core.SessionFaults
import PowerForensics.Core.SessionTotal
import PowerForensics.Core.SessionWriter
import PowerForensics.Core.Millis
import PowerForensics.Core.Envelope
import PowerForensics.Core.SessionFrame
import PowerForensics.System.Runs
import PowerForensics.System.Responses
import PowerForensics.System.Merging
import PowerForensics.Core.Csv
import PowerForensics.Core.CsvMerge
import PowerForensics.Text.Csv
import PowerForensics.Core.CsvText
import PowerForensics.Agent.Sched
import PowerForensics.Agent.Service
import PowerForensics.Agent.PauseControl
import PowerForensics.Agent.Markers
import PowerForensics.Agent.MarkerText
import PowerForensics.Agent.PipeAnswers
import PowerForensics.Agent.PipeDeadline
import PowerForensics.Agent.PipeTransport
import PowerForensics.Agent.Store
import PowerForensics.Agent.StoreRecovery
import PowerForensics.Agent.TornWrite
import PowerForensics.System.Lookup
import PowerForensics.System.Neighbours
import PowerForensics.Core.ArchiveRecord
import PowerForensics.Core.Archive
import PowerForensics.Core.ArchiveManifest
import PowerForensics.Core.ArchiveLoader
import PowerForensics.Core.ArchiveTable
import PowerForensics.Core.ArchiveStore
import PowerForensics.Core.ArchiveStream
import PowerForensics.Core.ArchivePrintable
import PowerForensics.Core.ArchiveReload
import PowerForensics.Core.ArchiveBattery
import PowerForensics.Core.ArchiveIdentity
import PowerForensics.Binary64.Order
import PowerForensics.System.Distinct
import PowerForensics.Core.Compare
import PowerForensics.Core.Experiment
import PowerForensics.Core.ExperimentConfounders
import PowerForensics.Core.ExperimentInclusion
import PowerForensics.Core.ExperimentOrder
import PowerForensics.Core.AnalyzeRange
import PowerForensics.Core.AnalyzeMetrics
import PowerForensics.Core.CompareRanges
import PowerForensics.Core.CompareMirror
import PowerForensics.Text.Scanner
import PowerForensics.Core.Redact
import PowerForensics.Core.RedactRules
import PowerForensics.Core.RedactNumbers
import PowerForensics.Core.RedactIdentifiers
import PowerForensics.Gui.ExperimentStore
import PowerForensics.Gui.ExperimentCalls
import PowerForensics.Text.Cuts
import PowerForensics.Text.Search
import PowerForensics.Core.Dashboard
import PowerForensics.Gui.Sessions
import PowerForensics.Gui.Evidence
import PowerForensics.Gui.TailView
import PowerForensics.Gui.Windows
import PowerForensics.Gui.SessionScan
import PowerForensics.Gui.SessionIndex
import PowerForensics.Collectors.Counters
import PowerForensics.Collectors.Graphics
import PowerForensics.Collectors.Storage
import PowerForensics.Collectors.Network
import PowerForensics.Collectors.RateWindows
import PowerForensics.Collectors.Usb
import PowerForensics.Collectors.Display
import PowerForensics.Collectors.InventoryChanges
import PowerForensics.Cli.Prune
import PowerForensics.Cli.PruneScope
import PowerForensics.Cli.PrunePlan
import PowerForensics.Core.Calibration
import PowerForensics.Core.CalibrationHeldOut
import PowerForensics.Core.CalibrationQuality
import PowerForensics.Gui.CalibrationStore
import PowerForensics.Gui.CalibrationCalls
import PowerForensics.Core.RunReduction
import PowerForensics.Gui.RunCache
import PowerForensics.Collectors.BatteryMetadata
import PowerForensics.Collectors.ProcLine
import PowerForensics.Collectors.GpuLine
import PowerForensics.Collectors.NetLine
import PowerForensics.Collectors.SampleLines
import PowerForensics.Core.Capture
import PowerForensics.Core.Phases
import PowerForensics.Core.PhasesMirror
import PowerForensics.Binary64.Bounds
import PowerForensics.Core.StoredDoc
import PowerForensics.Collectors.CounterLines
import PowerForensics.Agent.Throughput
import PowerForensics.Agent.Boost
import PowerForensics.Binary64.Monotone
import PowerForensics.Core.CaptureOrder
import PowerForensics.Core.Settling
import PowerForensics.System.Thinning
import PowerForensics.System.Extremes
import PowerForensics.Gui.Downsample
import PowerForensics.Gui.WindowSeries
import PowerForensics.System.Pieces
import PowerForensics.Core.ReportDrawing
import PowerForensics.Collectors.OsPower
import PowerForensics.Text.LineScan
import PowerForensics.Core.RedactLines
import PowerForensics.Cli.StoreArchive
import PowerForensics.Core.AnalyzeChanges
import PowerForensics.System.Sweep
import PowerForensics.Core.AnalyzeCorrelation
import PowerForensics.System.Buckets
import PowerForensics.Core.AnalyzeRegions
import PowerForensics.Core.IdleSubset
import PowerForensics.System.Tables
import PowerForensics.Core.AnalyzeProcesses
import PowerForensics.Core.CompareProcesses
import PowerForensics.Core.BaselineText
import PowerForensics.System.LeastSquares
import PowerForensics.Core.CalibrationExact
import PowerForensics.Binary64.Halves
import PowerForensics.Core.ExperimentPairs
import PowerForensics.Binary64.Signs
import PowerForensics.Core.ExperimentAgreement
import PowerForensics.Agent.ElevatedPoller
import PowerForensics.Agent.Histogram
import PowerForensics.Core.JsonEscapes
import PowerForensics.Agent.TimeoutEpisodes
import PowerForensics.Agent.SampleBound
import PowerForensics.Cli.Retention
import PowerForensics.Collectors.GpuActivity
import PowerForensics.Collectors.NetTotals
import PowerForensics.Collectors.BrightnessSensors
import PowerForensics.Collectors.PowerList
import PowerForensics.Collectors.ProcRates
import PowerForensics.System.Prefixes
import PowerForensics.Collectors.PowercfgBlocks
import PowerForensics.Cli.Overhead
import PowerForensics.Text.Headings
import PowerForensics.Text.Codes
import PowerForensics.Elevated.PowerRequests
import PowerForensics.Elevated.Snapshot
import PowerForensics.System.OrderStatistics
import PowerForensics.Core.Percentiles
import PowerForensics.Binary64.Blends
import PowerForensics.Core.ExperimentBootstrap
import PowerForensics.Binary64.Values
import PowerForensics.Agent.SampleStamps
import PowerForensics.Agent.SummaryAccum
import PowerForensics.Agent.RecentWindow
import PowerForensics.Core.Diagnosis
import PowerForensics.System.Observed
import PowerForensics.Core.JsonCursor
import PowerForensics.Core.JsonCursorRefinement
import PowerForensics.Core.JsonCursorSafety
import PowerForensics.Core.DisplayModel
