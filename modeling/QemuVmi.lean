import QemuVmi.Block.Discard
import QemuVmi.Block.Multiwrite
import QemuVmi.Block.ReadModifyWrite
import QemuVmi.Coroutine.Lock
import QemuVmi.Exec.Translate
import QemuVmi.Exec.Unmap
import QemuVmi.Kvm.CoalescedMmio
import QemuVmi.Kvm.DirtyLog
import QemuVmi.Kvm.PageMap
import QemuVmi.KvmCrypto.JobId
import QemuVmi.KvmCrypto.QueueFrees
import QemuVmi.KvmCrypto.RoundTrip
import QemuVmi.Memory.ListenerBalance
import QemuVmi.Migration.BlockStream
import QemuVmi.Migration.FileInput
import QemuVmi.Migration.PageCache
import QemuVmi.Migration.RamRun
import QemuVmi.Migration.XbzrleSafety
import QemuVmi.Net.Queue
import QemuVmi.Plugin.Services
import QemuVmi.Plugin.TaskList
import QemuVmi.Plugin.TransAddr
import QemuVmi.Qcow2.CacheContent
import QemuVmi.Qcow2.ClusterOffset
import QemuVmi.Qcow2.Extents
import QemuVmi.Qcow2.PendingDiscards
import QemuVmi.Qcow2.RefcountTable
import QemuVmi.Qcow2.SnapshotList
import QemuVmi.Qobject.JsonRoundTrip
import QemuVmi.Qobject.SingleQuotes
import QemuVmi.Util.HBitmapInterleave
import QemuVmi.Util.HostUtils
import QemuVmi.Util.MkTime
import QemuVmi.Util.TimerDeadline
import QemuVmi.Virtio.Load
import QemuVmi.Virtio.Notify
import QemuVmi.Virtio.QueueBounds
