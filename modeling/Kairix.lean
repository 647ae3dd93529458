import Kairix.PipeFifoRefinement
import Kairix.PipeWriteAtomicity
import Kairix.FrameCacheSafety
import Kairix.SinglePlacement
import Kairix.LostWakeups
import Kairix.RecordLockExclusion
import Kairix.HeapGrowthFailure
import Kairix.SlabHeapSafety
import Kairix.FutexConservation
import Kairix.PiFutexOwnership
import Kairix.DeadlineHint
import Kairix.FlockExclusion
import Kairix.ExecThreads
import Kairix.BlockingMutexProgress
import Kairix.ExecFailure
import Kairix.ProcessOrphans
import Kairix.TaskIdSafety
import Kairix.BlockReadCoherence
import Kairix.AppendRanges
import Kairix.PositionedIo
import Kairix.WritebackSelfWait
import Kairix.SharedMemoryLifetime
import Kairix.SignalMasks
import Kairix.FileSeals
import Kairix.FreeAreas
import Kairix.Ipv4Input
import Kairix.EpollNesting
import Kairix.UserBuffers
import Kairix.PipeReadiness
import Kairix.TcpRetransmit
import Kairix.RobustList
import Kairix.PathMtu
import Kairix.ExitStatus
import Kairix.PosixTimers
import Kairix.GptPartition
import Kairix.HeapExtents
