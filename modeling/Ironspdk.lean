import Ironspdk.Runtime.Executor
import Ironspdk.Runtime.IoCtx
import Ironspdk.Runtime.Teardown
import Ironspdk.Runtime.HomeThread
import Ironspdk.Runtime.PollReturns
import Ironspdk.Runtime.TlsDrops
import Ironspdk.Runtime.Gather
import Ironspdk.Runtime.Batch
import Ironspdk.Runtime.Reblock
import Ironspdk.Runtime.WakerRefs
import Ironspdk.Rpc.Registry
import Ironspdk.Rpc.Geometry
import Ironspdk.Rpc.Json
import Ironspdk.Rpc.Redundancy
import Ironspdk.Rpc.Answers
import Ironspdk.Raid1.Converge
import Ironspdk.Raid1.FailStop
import Ironspdk.Raid1.Liveness
import Ironspdk.Raid1.Turns
import Ironspdk.Raid1.Lent
import Ironspdk.Raid5.Lifetimes
import Ironspdk.Raid5.Degraded
import Ironspdk.Raid5.Crash
import Ironspdk.Raid5.Workers
import Ironspdk.Raid5.Rest
import Ironspdk.Raid5.Deletion
import Ironspdk.Raid5.SplitStrips
import Ironspdk.Raid5.WritePaths
import Ironspdk.Raid5.XorBytes
import Ironspdk.Raid5.FailMask
import Ironspdk.Raid5.GiveBack
import Ironspdk.Raid5.Lent
import Ironspdk.Raid5.LentRuns
import Ironspdk.Raid5.ByteDisk
