import BajaDaq.TransitionRuns
import BajaDaq.BinaryIntegrity
import BajaDaq.CompanionAlignment
import BajaDaq.LoggerSessions
import BajaDaq.ClockDiscipline
import BajaDaq.SessionIsolation
import BajaDaq.ClockReads
import BajaDaq.ClockTracking
import BajaDaq.NodeDispatch
import BajaDaq.CommandObedience
import BajaDaq.BeaconCommands
import BajaDaq.NodeRegistry
import BajaDaq.LiveViewing
import BajaDaq.OfflineMarks
import BajaDaq.AppLifecycle
import BajaDaq.DecimalText
import BajaDaq.LifecycleAgreement
import BajaDaq.CivilDates
import BajaDaq.PairedCsv
import BajaDaq.PairedRows
import BajaDaq.PairedExport
import BajaDaq.LiveHistory
import BajaDaq.NodeConvergence
import BajaDaq.Directories
import BajaDaq.SessionFiles
import BajaDaq.SessionCreation
import BajaDaq.SessionRenames
import BajaDaq.ActiveProtection
import BajaDaq.CheckpointRetry
import BajaDaq.CsvText
import BajaDaq.FullCsv
import BajaDaq.OfflineDecoder
import BajaDaq.DecoderParity
import BajaDaq.SamplePipeline
import BajaDaq.UbxConfig
import BajaDaq.RateSetup
import BajaDaq.BusOffRecovery
import BajaDaq.OutlierRejection
import BajaDaq.SlewBound
import BajaDaq.EngineRpm
import BajaDaq.EngineEvents
import BajaDaq.SamplerTasks
import BajaDaq.SessionFreshness
import BajaDaq.SparkPairing
import BajaDaq.RingWindows
import BajaDaq.HalfAwayRounding
import BajaDaq.BearingEncoder
import BajaDaq.BearingRpm
import BajaDaq.CStrings
import BajaDaq.RmcParser
import BajaDaq.RmcGrammar
import BajaDaq.RmcCorruption
import BajaDaq.GregorianDays
import BajaDaq.UtcCalendar
import BajaDaq.StreamSegments
import BajaDaq.GpsReceiver
import BajaDaq.LineAssembly
import BajaDaq.BurstObservations
import BajaDaq.LatePairings
import BajaDaq.ListBursts
import BajaDaq.DecimalNumbers
import BajaDaq.ExactTelemetry
import BajaDaq.SampleTimes
import BajaDaq.GridTimes
import BajaDaq.SamplePasses
import BajaDaq.MpuBursts
import BajaDaq.OverwritingQueue
import BajaDaq.DropOldest
import BajaDaq.InterleavedPasses
import BajaDaq.CanTransmit
import BajaDaq.UnrepeatedPattern
import BajaDaq.AckSearch
import BajaDaq.CompletedLogs
import BajaDaq.DefaultNames
import BajaDaq.CarriedRemainders
import BajaDaq.WheelEncoder
import BajaDaq.PendingWrites
import BajaDaq.WheelSimulator
import BajaDaq.EngineSimulator
import BajaDaq.ManualCommands
import BajaDaq.TracedBuffers
import BajaDaq.DownloadBuffers
import BajaDaq.EngineBench
import BajaDaq.WheelBench
import BajaDaq.CsvRoundTrip
import BajaDaq.SharedTime
import BajaDaq.FrameAccounting
import BajaDaq.HexText
import BajaDaq.JsonText
import BajaDaq.LiveApi
import BajaDaq.GpsSamples
