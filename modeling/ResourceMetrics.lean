import ResourceMetrics.Scripted
import ResourceMetrics.Service
import ResourceMetrics.Proofs.CpuReport
import ResourceMetrics.Proofs.ProcessorBounds
import ResourceMetrics.Proofs.LoadRun
import ResourceMetrics.Proofs.ShareCapacity
import ResourceMetrics.Proofs.SwapRetry
import ResourceMetrics.Proofs.FreeWithinTotal
import ResourceMetrics.Proofs.HostWindows
import ResourceMetrics.Proofs.ReportedRange
import ResourceMetrics.Proofs.QuotaChange
import ResourceMetrics.Proofs.GroupSwap
import ResourceMetrics.Proofs.PathComponents
import ResourceMetrics.Proofs.GroupDirectory
import ResourceMetrics.Proofs.ResolvedComponents
import ResourceMetrics.Proofs.EscapedPath
import ResourceMetrics.Proofs.MountLine
import ResourceMetrics.Proofs.GetterRuns
import ResourceMetrics.Proofs.CallFaults
import ResourceMetrics.Proofs.Binary64Unsigned
import ResourceMetrics.Proofs.IdleSnapshot
import ResourceMetrics.Proofs.ContainerDetection
import ResourceMetrics.Proofs.DetectionFrame
import ResourceMetrics.Proofs.WholeCpuShares
import ResourceMetrics.Proofs.HostOnly
import ResourceMetrics.Proofs.RequestRuns
import ResourceMetrics.Proofs.UniqueKeys
import ResourceMetrics.Proofs.RepeatedKeys
import ResourceMetrics.Proofs.CpuSection
import ResourceMetrics.Proofs.CommandName
import ResourceMetrics.Proofs.MembershipFile
import ResourceMetrics.Proofs.HistoryRuns
import ResourceMetrics.Proofs.NumeralText
import ResourceMetrics.Proofs.CpuListText
import ResourceMetrics.Proofs.SetSpelling
import ResourceMetrics.Proofs.MeanWindows
import ResourceMetrics.Proofs.ValueLine
import ResourceMetrics.Proofs.OctalEscape
