import Memcr.GuardedRuns
import Memcr.ByteWords
import Memcr.FrameStreams
import Memcr.HeaderStreams
import Memcr.Pipes
import Memcr.ByteMemory
import Memcr.FirstMatch
import Memcr.IndexedLists
import Memcr.RunCollection
import Memcr.BlockStreams
import Memcr.CipherBlocks
import Memcr.RingBuffers
import Memcr.NumberText
import Memcr.FormatScanning
import Memcr.FormatPrinting
import Memcr.AddressWindows
import Memcr.TrapCode
import Memcr.CallOutcome
import Memcr.CallLogs
import Memcr.DumpFormat
import Memcr.DumpRestore
import Memcr.DumpReaders
import Memcr.DumpRecords
import Memcr.BlockFormats
import Memcr.BlockDecoding
import Memcr.EncryptedDump
import Memcr.DumpWriters
import Memcr.SplitReads
import Memcr.TamperedReads
import Memcr.DumpLayers
import Memcr.PageSelection
import Memcr.MapsScan
import Memcr.CheckpointMemory
import Memcr.BlobExecution
import Memcr.BlobCode
import Memcr.ParasiteInjection
import Memcr.InjectionTrace
import Memcr.BlobSteps
import Memcr.WorkerProcess
import Memcr.RestoreTargets
import Memcr.StatusWait
import Memcr.ThreadSeizure
import Memcr.TaskStream
import Memcr.ThreadFreeze
import Memcr.ServiceTable
import Memcr.ServiceSystem
import Memcr.SocketNames
import Memcr.ServiceMoves
import Memcr.CommandQueue
import Memcr.ServiceCommands
import Memcr.RejectedCommands
import Memcr.KillTargets
import Memcr.AbortRequests
import Memcr.RestoreSocket
import Memcr.PendingEntries
import Memcr.RestorableEntries
import Memcr.ServiceShutdown
import Memcr.ToldWorkers
import Memcr.DumpImages
import Memcr.TableShape
import Memcr.ReapedWorkers
import Memcr.TableLock
import Memcr.RestoreVisibility
import Memcr.ClientConnections
import Memcr.ConnectionAnswers
import Memcr.ConnectionCloses
import Memcr.DumpRoundTrip
import Memcr.DumpBackends
import Memcr.CheckpointStorage
import Memcr.PagemapReply
import Memcr.PageSources
import Memcr.PageRegions
import Memcr.FileDrops
import Memcr.RegionRequests
import Memcr.Protections
import Memcr.InteractiveMode
import Memcr.IntResults
import Memcr.TargetLife
import Memcr.ParasiteCommands
import Memcr.CutRequests
import Memcr.UploadStream
import Memcr.WrappingRanges
import Memcr.ScannedAreas
import Memcr.BlobExclusion
import Memcr.RequestStream
import Memcr.RequestLockstep
import Memcr.RestoreConnections
import Memcr.ServedConnections
import Memcr.RestoreWrites
import Memcr.RestoreDrained
