import XenOS.Mm.WorkingSetRuns
import XenOS.Mm.CommitRuns
import XenOS.Se.TokenFilter
import XenOS.Ex.HandleRuns
import XenOS.Ob.Access
import XenOS.Ke.ClockRuns
import XenOS.Ke.MutexRuns
import XenOS.Ke.SignalRuns
import XenOS.Ke.SchedRuns
import XenOS.Mm.SectionViewSpec
import XenOS.Mm.SectionLifeSpec
import XenOS.Io.DiskSpec
import XenOS.Io.IrpRuns
import XenOS.Io.StartIoRuns
import XenOS.Io.IrpBuildersSpec
import XenOS.Boot.PageTableRuns
import XenOS.Boot.LoaderBlockSpec
import XenOS.Ps.CidSpec
import XenOS.Io.FileLifeSpec
import XenOS.Io.StorPortSpec
import XenOS.Hive.RoundTrip
import XenOS.Hive.BigDataSpec
import XenOS.Mm.PagefileRuns
import XenOS.Mm.PfnCounters
import XenOS.Mm.VmRanges
import XenOS.Mm.Mdl
import XenOS.Mm.SoftwarePte
import XenOS.Ob.Reaper
import XenOS.Se.DescriptorInfoSpec
import XenOS.Ob.InsertFailure
import XenOS.Ob.LookupSpec
import XenOS.Ke.SystemTime
import XenOS.Ke.PushLock
import XenOS.Ke.FastMutex
import XenOS.Ke.Ipi
import XenOS.Ke.DpcQueue
import XenOS.Ke.Apc
import XenOS.Ke.PriorityDecay
import XenOS.Ex.Lookaside
import XenOS.Ex.PoolHandoverRuns
import XenOS.Fat.PathsSpec
import XenOS.Fat.TimeSpec
import XenOS.Io.ShareAccess
import XenOS.Io.Volume
import XenOS.Boot.RelocationsSpec
import XenOS.Io.DeviceActions
import XenOS.Rtl.NlsRoundTrip
