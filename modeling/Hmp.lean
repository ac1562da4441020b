import Hmp.Lib.Run
import Hmp.Lib.Bytes
import Hmp.Spec.Mem
import Hmp.Spec.Transport
import Hmp.Proofs.CompChannel
import Hmp.Spec.PoolRun
import Hmp.Proofs.Malloc
import Hmp.Proofs.Pool
import Hmp.Proofs.Attempt
import Hmp.Proofs.ReadWait
import Hmp.Proofs.ReadPath
import Hmp.Proofs.OwnWrites
import Hmp.Proofs.MrAgreement
import Hmp.Proofs.Table
import Hmp.Proofs.Blocks
import Hmp.Proofs.Frames
import Hmp.Proofs.Disconnect
import Hmp.Proofs.Queues
import Hmp.Proofs.Channel
import Hmp.Proofs.Receives
import Hmp.Proofs.EagerWrites
import Hmp.Proofs.Ranges
import Hmp.Proofs.Report
import Hmp.Proofs.Unknown
import Hmp.Proofs.Reconnect
import Hmp.Proofs.GlobalAddr
import Hmp.Proofs.Frame
import Hmp.Proofs.EventChannel
import Hmp.Proofs.EventLoop
import Hmp.Proofs.Request
import Hmp.Proofs.NodeInit
import Hmp.Proofs.Domains
import Hmp.Proofs.Release
import Hmp.Proofs.HashRing
import Hmp.Proofs.HashKey
import Hmp.Proofs.Murmur
import Hmp.Proofs.Connect
import Hmp.Proofs.DeviceList
import Hmp.Proofs.Config
import Hmp.Proofs.Drain
import Hmp.Proofs.Log
import Hmp.Proofs.RbRun
import Hmp.Proofs.RbWalk
import Hmp.Proofs.FullMesh
import Hmp.Proofs.Handover
import Hmp.Proofs.Arrival
