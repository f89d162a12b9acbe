import RCoreOS.EasyFs.BitmapHistories
import RCoreOS.EasyFs.CacheTrace
import RCoreOS.EasyFs.DataAllocation
import RCoreOS.EasyFs.DiskRegions
import RCoreOS.EasyFs.Durability
import RCoreOS.EasyFs.FileNames
import RCoreOS.EasyFs.LockOrder
import RCoreOS.EasyFs.RootDirectory
import RCoreOS.EasyFs.TwoDevices
import RCoreOS.Kernel.AllocatorHistories
import RCoreOS.Kernel.ArgvLayout
import RCoreOS.Kernel.CleanRows
import RCoreOS.Kernel.DetectorVerdicts
import RCoreOS.Kernel.ElfSegments
import RCoreOS.Kernel.ExitCodes
import RCoreOS.Kernel.FileHandles
import RCoreOS.Kernel.FrameOwnership
import RCoreOS.Kernel.GetTime
import RCoreOS.Kernel.KernelStacks
import RCoreOS.Kernel.MissedDeadlocks
import RCoreOS.Kernel.MutexAccounting
import RCoreOS.Kernel.MutexHandoff
import RCoreOS.Kernel.ObjectIds
import RCoreOS.Kernel.PipeFifo
import RCoreOS.Kernel.RefusedRequests
import RCoreOS.Kernel.SemaphoreAccounting
import RCoreOS.Kernel.SemaphoreConservation
import RCoreOS.Kernel.Timers
import RCoreOS.Kernel.TranslatedBuffers
import RCoreOS.Kernel.UserStrings
