import Hmp.Lib.Bytes
import Mathlib.Logic.Function.Basic
import Mathlib.Tactic.Simps.Basic

/-! The data of one process: the structures of the headers, and what the verbs
and rdma_cm libraries hold for it. A pointer to a transport or a task is its
index in the heap of such objects, in order of allocation; any other pointer is
its address. -/

namespace HMP

def HMP_NODE_NUM : ℕ := 8
def HMP_TASK_SIZE : ℕ := 40
def HMP_PAGE_SIZE : ℕ := 64
def HMP_DRAM_MEM_SIZE : ℕ := 4 * 1024

inductive MsgType where
  | init | normal | read | write | finish | done
  deriving DecidableEq

/-- The value of the C enumerator. -/
def MsgType.val : MsgType → ℕ
  | .init => 0 | .normal => 1 | .read => 2 | .write => 3 | .finish => 4 | .done => 5

/-- `data` is the memory behind the pointer. -/
structure HmpMsg where
  msgType : MsgType
  dataSize : ℤ
  data : ℕ → UInt8

inductive TransportState where
  | init | listen | connecting | connected | disconnected | reconnect | closed | destroyed | error
  deriving DecidableEq

def TransportState.val : TransportState → ℕ
  | .init => 0 | .listen => 1 | .connecting => 2 | .connected => 3 | .disconnected => 4
  | .reconnect => 5 | .closed => 6 | .destroyed => 7 | .error => 8

structure HmpMrInfo where
  addr : ℕ := 0
  length : ℕ := 0
  rkey : ℕ := 0
  deriving DecidableEq

structure HmpNodeInfo where
  addr : String
  port : ℤ
  dramMr : HmpMrInfo := {}

structure HmpConfig where
  nodeInfos : ℕ → HmpNodeInfo
  curnodeId : ℕ
  nodeCnt : ℕ

inductive IbvAccess where
  | localWrite | remoteWrite | remoteRead | remoteAtomic | mwBind
  deriving DecidableEq

/-- A registered region, with the widths of `size_t` and `uint32_t`. -/
structure IbvMr where
  length : ℕ
  lkey : ℕ
  rkey : ℕ
  access : List IbvAccess
  length_lt : length < 2 ^ 64
  rkey_lt : rkey < 2 ^ 32

/-- `fits`: `calloc` returned the block, and user addresses lie below `2 ^ 48`,
which the address format of the hybrid pool rests on. -/
structure HmpMempool where
  baseAddr : ℕ
  pageNum : ℕ
  size : ℕ
  allocSize : ℕ
  mr : IbvMr
  base_pos : 0 < baseAddr
  fits : baseAddr + size ≤ 2 ^ 48

structure HmpSge where
  addr : ℕ := 0
  length : ℕ := 0
  lkey : ℕ := 0
  deriving DecidableEq

inductive TaskType where
  | init | read | write | done
  deriving DecidableEq

structure HmpTask where
  type : TaskType := .init
  sge : HmpSge := {}
  rdmaTrans : ℕ := 0
  deriving DecidableEq

structure HmpRegion where
  sendAddr : ℕ := 0
  recvAddr : ℕ := 0
  curRecv : ℕ := 0
  deriving DecidableEq

/-- An address is named by its `inet_ntoa` form. -/
structure SockAddr where
  addr : String := "0.0.0.0"
  port : ℕ := 0
  deriving DecidableEq

/-- One end of a connection of rdma_cm: the end that called `rdma_connect` is the active one. -/
structure CmId where
  conn : ℕ
  active : Bool
  deriving DecidableEq

/-- The limits of a device that the code reads. -/
structure IbvDeviceAttr where
  maxCqe : ℕ := 0
  maxSge : ℕ := 0
  deriving DecidableEq

structure HmpDevice where
  verbs : ℕ
  pd : ℕ
  deviceAttr : IbvDeviceAttr := {}
  deriving DecidableEq

/-- The defaults are what `calloc` leaves. -/
structure HmpTransport where
  peerAddr : SockAddr := {}
  nodeId : ℕ := 0
  transState : TransportState := .init
  device : Option HmpDevice := none
  cmId : Option CmId := none
  region : HmpRegion := {}
  deriving DecidableEq

inductive IbvWrOpcode where
  | send | rdmaWrite | rdmaRead
  deriving DecidableEq

structure IbvSendWr where
  wrId : ℕ
  opcode : IbvWrOpcode
  sge : HmpSge
  remoteAddr : ℕ := 0
  rkey : ℕ := 0
  deriving DecidableEq

structure IbvRecvWr where
  wrId : ℕ
  sge : HmpSge
  deriving DecidableEq

inductive IbvWcStatus where
  | success | locLenErr | locQpOpErr | locEecOpErr | locProtErr | wrFlushErr | mwBindErr
  | badRespErr | locAccessErr | remInvReqErr | remAccessErr | remOpErr | retryExcErr
  | rnrRetryExcErr | locRddViolErr | remInvRdReqErr | remAbortErr | invEecnErr
  | invEecStateErr | fatalErr | respTimeoutErr | generalErr
  deriving DecidableEq

inductive IbvWcOpcode where
  | send | rdmaWrite | rdmaRead | compSwap | fetchAdd | bindMw | localInv | tso | recv
  | recvRdmaWithImm
  deriving DecidableEq

structure IbvWc where
  wrId : ℕ
  status : IbvWcStatus
  opcode : IbvWcOpcode
  byteLen : ℕ := 0
  deriving DecidableEq

/-- The queue pair of a transport with its completion queue. `registered`: the
completion channel is in the epoll set. The default is a transport that has
none. -/
structure VerbsQp where
  live : Bool := false
  registered : Bool := false
  rq : List IbvRecvWr := []
  sq : List IbvSendWr := []
  cq : List IbvWc := []
  deriving DecidableEq

inductive RdmaCmEventType where
  | addrResolved | addrError | routeResolved | routeError | connectRequest | connectResponse
  | connectError | unreachable | rejected | established | disconnected | deviceRemoval
  | multicastJoin | multicastError | addrChange | timewaitExit
  deriving DecidableEq

/-- `struct hmp_node curnode` with the objects it reaches, and the memory of the process. -/
structure Node where
  config : HmpConfig
  stop : Bool := false
  listenState : TransportState := .init
  connectTrans : ℕ → Option ℕ := fun _ => none
  dramMempool : Option HmpMempool := none
  devList : List HmpDevice := []
  trans : ℕ → HmpTransport := fun _ => {}
  nextTrans : ℕ := 0
  task : ℕ → HmpTask := fun _ => {}
  nextTask : ℕ := 0
  qp : ℕ → VerbsQp := fun _ => {}
  mem : Mem := fun _ => 0

namespace Node

@[simps -fullyApplied] def setTrans (nd : Node) (t : ℕ) (x : HmpTransport) : Node :=
  { nd with trans := Function.update nd.trans t x }

@[simps -fullyApplied] def setTask (nd : Node) (p : ℕ) (x : HmpTask) : Node :=
  { nd with task := Function.update nd.task p x }

@[simps -fullyApplied] def setQp (nd : Node) (t : ℕ) (q : VerbsQp) : Node :=
  { nd with qp := Function.update nd.qp t q }

@[simps -fullyApplied] def setInfo (nd : Node) (k : ℕ) (x : HmpNodeInfo) : Node :=
  { nd with config := { nd.config with nodeInfos := Function.update nd.config.nodeInfos k x } }

@[simps! -fullyApplied] def setState (nd : Node) (t : ℕ) (st : TransportState) : Node :=
  nd.setTrans t { nd.trans t with transState := st }

/-- `curnode.dram_mempool->base_addr`. -/
def baseAddr (nd : Node) : ℕ := nd.dramMempool.elim 0 (·.baseAddr)

/-- `curnode.dram_mempool->mr->lkey`. -/
def lkey (nd : Node) : ℕ := nd.dramMempool.elim 0 (·.mr.lkey)

end Node

end HMP
