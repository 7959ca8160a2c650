import ChronoLog.Basic
import ChronoLog.Event
import ChronoLog.Lib.SortedList
import ChronoLog.Lib.Transition
import ChronoLog.Lib.Trace
import ChronoLog.Lib.Intervals
import ChronoLog.Lib.OrdMap
import ChronoLog.Lib.Greatest
import ChronoLog.Lib.Gather
import ChronoLog.Lib.Rendezvous
import ChronoLog.Lib.PrefixCode
import ChronoLog.Lib.MapWalk
import ChronoLog.Lib.Custody
import ChronoLog.Lib.Iterators
import ChronoLog.Lib.Tiling
import ChronoLog.Lib.Loop
import ChronoLog.Lib.WordPolynomials
import ChronoLog.Lib.TokenParsers
import ChronoLog.Lib.JsonText
import ChronoLog.Pipeline.Timeline
import ChronoLog.Pipeline.Decay
import ChronoLog.Pipeline.KeeperMerge
import ChronoLog.Pipeline.GrapherMerge
import ChronoLog.Pipeline.GrapherWindows
import ChronoLog.Pipeline.GrapherConservation
import ChronoLog.Pipeline.TimelineRuns
import ChronoLog.Pipeline.AcceptanceWindow
import ChronoLog.Pipeline.MergeOrder
import ChronoLog.Pipeline.ChunkMerge
import ChronoLog.Pipeline.RangeReads
import ChronoLog.Grapher.WatermarkRegistry
import ChronoLog.Grapher.WatermarkClosure
import ChronoLog.Grapher.ReceiptLedger
import ChronoLog.Grapher.DataStore
import ChronoLog.Grapher.StoryLife
import ChronoLog.Grapher.Adoption
import ChronoLog.Keeper.RetentionStore
import ChronoLog.Keeper.RetainedChunks
import ChronoLog.Keeper.RetentionRuns
import ChronoLog.Keeper.Sweeps
import ChronoLog.Keeper.TailIndex
import ChronoLog.Keeper.TailReads
import ChronoLog.Keeper.WalRelease
import ChronoLog.Keeper.ChunkOwnership
import ChronoLog.Keeper.FetchRange
import ChronoLog.Keeper.RecoveredState
import ChronoLog.Keeper.WriteGate
import ChronoLog.Player.HotRangeSplit
import ChronoLog.Player.ReplayCompleteness
import ChronoLog.Lib.Prog
import ChronoLog.Wal.Codec
import ChronoLog.Wal.EventCodec
import ChronoLog.Wal.Format
import ChronoLog.Wal.Frames
import ChronoLog.Wal.Crc32c
import ChronoLog.Wal.RecordFormat
import ChronoLog.Wal.SegmentNames
import ChronoLog.Wal.ReleaseTracker
import ChronoLog.Wal.ChunkRelease
import ChronoLog.Wal.ReleaseCounts
import ChronoLog.Wal.FileSink
import ChronoLog.Wal.VectoredWrite
import ChronoLog.Wal.State
import ChronoLog.Wal.SegmentManager
import ChronoLog.Wal.KeeperWal
import ChronoLog.Wal.ReleaseBatches
import ChronoLog.Wal.DurableWriter
import ChronoLog.Wal.Quiet
import ChronoLog.Wal.Identity
import ChronoLog.Wal.CommitterProtocol
import ChronoLog.Wal.HandOver
import ChronoLog.Wal.IdentityProtocol
import ChronoLog.Wal.Answers
import ChronoLog.Wal.Recovery
import ChronoLog.Wal.RecoveryRuns
import ChronoLog.Wal.CrashedRecovery
import ChronoLog.Wal.RestartHandOver
import ChronoLog.Client.EventIndex
import ChronoLog.Client.StoryHandle
import ChronoLog.Client.DurableAnswers
import ChronoLog.Plugins.HandleCache
import ChronoLog.Plugins.Subscriptions
import ChronoLog.Plugins.SqlTypes
import ChronoLog.Plugins.SqlTokenizer
import ChronoLog.Plugins.SqlParser
import ChronoLog.Plugins.SqlGrammar
import ChronoLog.Plugins.SqlPrinter
import ChronoLog.Plugins.JsonC
import ChronoLog.Plugins.SqlMetadata
import ChronoLog.Plugins.SchemaLog
import ChronoLog.Plugins.RowCodec
import ChronoLog.Plugins.SqlExecution
import ChronoLog.Plugins.SqlRows
import ChronoLog.Visor.MetaDirectory
import ChronoLog.Visor.Acquisitions
import ChronoLog.Visor.KeeperRegistry
import ChronoLog.Visor.GroupSelection
import ChronoLog.Visor.GroupAccounting
import ChronoLog.Visor.Requests
import ChronoLog.Visor.DestroyOrder
import ChronoLog.Visor.FailedDestroys
import ChronoLog.Visor.NextIncarnation
import ChronoLog.Visor.HeldStarts
import ChronoLog.Archive.Layout
import ChronoLog.Archive.ArchivePaths
import ChronoLog.Archive.WindowPublication
import ChronoLog.Archive.Manifest
import ChronoLog.Lib.LineLog
import ChronoLog.Archive.ManifestLines
import ChronoLog.Archive.CompactObjects
import ChronoLog.Archive.ManifestLog
import ChronoLog.Archive.ManifestAgreement
import ChronoLog.Player.ArchiveIndex
import ChronoLog.Player.ArchiveReading
import ChronoLog.Player.PlaybackRequests
import ChronoLog.Player.QueryBookkeeping
import ChronoLog.Client.QueryService
import ChronoLog.Client.EndToEndReplay
import ChronoLog.Client.TailGather
import ChronoLog.Archive.DestroyScope
import ChronoLog.Grapher.ChunkExtractor
import ChronoLog.Grapher.ChunkArrivals
import ChronoLog.Wal.GroupImage
import ChronoLog.Wal.SegmentOwners
import ChronoLog.Wal.SyncedGroups
