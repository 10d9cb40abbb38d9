import Orchestrator.Overflow
import Orchestrator.PlanAgreement
import Orchestrator.Links
import Orchestrator.Coverage
import Orchestrator.TaskFile
import Orchestrator.ScanNew
import Orchestrator.UpdateDocker
import Orchestrator.RunTime
import Orchestrator.LookupLinks
import Orchestrator.SharedSettings
import Orchestrator.SharedNarrowing
import Orchestrator.CpuList
import Orchestrator.QsortllHeap
import Orchestrator.PeriodGrid
import Orchestrator.Demand
import Orchestrator.ReallocUndo
import Orchestrator.ReallocLoad
import Orchestrator.SingleStream
import Orchestrator.SiblingFlags
import Orchestrator.LowLoad
import Orchestrator.BestTracer
import Orchestrator.PrimarySibling
import Orchestrator.PeriodMatch
import Orchestrator.HarmonicFlag
import Orchestrator.RoundRobin
import Orchestrator.LoadOrder
import Orchestrator.PlanOrder
import Orchestrator.AppliedAffinity
import Orchestrator.SchedDefaults
import Orchestrator.HexMask
import Orchestrator.RuntimeStats
import Orchestrator.JitterSum
import Orchestrator.LinkRepair
import Orchestrator.SmtSiblings
import Orchestrator.FormatCut
import Orchestrator.EventOffsets
import Orchestrator.RepeatedStart
import Orchestrator.Words
import Orchestrator.RingBuffer
import Orchestrator.TraceRecords
import Orchestrator.TraceWalk
import Orchestrator.PageCopies
import Orchestrator.PageGrowth
import Orchestrator.PageSeek
import Orchestrator.PageEnds
import Orchestrator.TracePipe
import Orchestrator.TracerSetup
import Orchestrator.FairRuns
import Orchestrator.Shutdown
import Orchestrator.ThreadStates
import Orchestrator.StopRequests
import Orchestrator.ThreadEnds
import Orchestrator.TraceReaders
import Orchestrator.SharedList
import Orchestrator.PsLines
import Orchestrator.TracedRunTime
import Orchestrator.Startup
import Orchestrator.RootTasks
