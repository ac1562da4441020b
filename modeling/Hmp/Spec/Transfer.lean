import Hmp.Lib.Run
import Hmp.Spec.Startup

/-! The calls of `hmp_read` and `hmp_write` that one node makes, on a thread of
their own, with the event thread of the node and the adapters. A queue pair
executes its requests in posting order; `far t` is the node at the other end of
the queue pair of `t`, and `remote j` the memory of node `j`. -/

namespace HMP

inductive TransferOp where
  | read | write
  deriving DecidableEq

/-- An access that takes the path of one-sided transfers: `length` bytes between
the local buffer and address `addr` of node `nodeId`. -/
structure RemoteCall where
  op : TransferOp
  nodeId : ℕ
  t : ℕ
  localAddr : ℕ
  addr : ℕ
  length : ℤ
  deriving DecidableEq

/-- Where the calling thread stands: outside, in `hmp_transport_check_state` and what
follows up to the post, or in the wait loop of `hmp_rdma_read` on a task. -/
inductive AppPc where
  | idle
  | checking (c : RemoteCall)
  | waiting (c : RemoteCall) (task : ℕ)
  deriving DecidableEq

/-- What a finished access stored at, or delivered from, an address of a node. -/
structure Accessed where
  op : TransferOp
  nodeId : ℕ
  addr : ℕ
  bytes : List UInt8
  deriving DecidableEq

/-- The byte that a finished write stored at address `x` of node `j`. -/
def Accessed.stored (e : Accessed) (j x : ℕ) : Option UInt8 :=
  if e.op = .write ∧ e.nodeId = j ∧ e.addr ≤ x then e.bytes[x - e.addr]? else none

/-- The last byte that the writes of `hist` stored at address `x` of node `j`. -/
def lastStored (hist : List Accessed) (j x : ℕ) : Option UInt8 :=
  hist.reverse.findSome? fun e => e.stored j x

/-- `running`: the event loop has not ended. `hist`: the finished accesses, oldest first. -/
structure Transfer where
  node : Node
  remote : ℕ → Mem
  far : ℕ → ℕ
  app : AppPc := .idle
  running : Bool := true
  hist : List Accessed := []

/-- `call`, `check`, `ret`: the calling thread, with the outcome of `malloc` and of the
post. `complete`: the adapter finishes the oldest request of a queue pair. `recv`: it puts a
message into the oldest posted receive, or flushes it. `poll`, `cm`, `loopExit`: the event
thread. `store`, `storeRemote`: any other store into the memory of this node or of another. -/
inductive TransferEvent where
  | call (op : TransferOp) (localAddr : ℕ) (hmAddr : BitVec 64) (length : ℤ)
  | check (o : PostOutcome)
  | ret
  | complete (t : ℕ) (status : IbvWcStatus)
  | recv (t : ℕ) (status : IbvWcStatus) (bytes : List UInt8)
  | poll (t : ℕ)
  | cm (t : ℕ) (e : CmEvent)
  | loopExit
  | store (addr : ℕ) (bytes : List UInt8)
  | storeRemote (j addr : ℕ) (bytes : List UInt8)

def IbvWrOpcode.wc : IbvWrOpcode → IbvWcOpcode
  | .send => .send
  | .rdmaWrite => .rdmaWrite
  | .rdmaRead => .rdmaRead

namespace Transfer

/-- The memory of node `j`. -/
def memOf (s : Transfer) (j : ℕ) : Mem :=
  if j = s.node.config.curnodeId then s.node.mem else s.remote j

def access (nd : Node) : TransferOp → ℕ → BitVec 64 → ℤ → Option Access
  | .read => hmpRead nd
  | .write => hmpWrite nd

def callStep (s : Transfer) (op : TransferOp) (localAddr : ℕ) (hmAddr : BitVec 64) (length : ℤ) :
    Option Transfer :=
  if s.app = .idle then
    (hmpGetHmNodeId s.node.config.nodeCnt hmAddr).bind fun r =>
      (access s.node op localAddr hmAddr length).map fun
        | .copied mem =>
          let bytes := mem.read localAddr (length % 2 ^ 64).toNat
          { s with node := { s.node with mem := mem }
                   hist := s.hist ++ [⟨op, r.1, r.2.toNat, bytes⟩] }
        | .remote t addr => { s with app := .checking ⟨op, r.1, t, localAddr, addr, length⟩ }
  else none

/-- The bytes that the request of a transfer moves. -/
def localBytes (nd : Node) (c : RemoteCall) : List UInt8 :=
  nd.mem.read c.localAddr (c.length % 2 ^ 32).toNat

def checkStep (s : Transfer) (o : PostOutcome) : Option Transfer :=
  match s.app with
  | .checking c =>
    (hmpTransportCheckState (s.node.trans c.t).transState).map fun ret =>
      if ret = -1 then { s with app := .idle }
      else match c.op with
        | .read =>
          let r := hmpRdmaReadPost s.node c.t c.localAddr c.addr c.length o
          { s with node := r.1, app := r.2.elim .idle (.waiting c) }
        | .write =>
          let r := hmpRdmaWritePost s.node c.t c.localAddr c.addr c.length o
          let stored := if o.task ∧ o.err = 0 then
            [⟨.write, c.nodeId, c.addr, localBytes s.node c⟩] else []
          { s with node := r.1, app := .idle, hist := s.hist ++ stored }
  | _ => none

def retStep (s : Transfer) : Option Transfer :=
  match s.app with
  | .waiting c task =>
    if (s.node.task task).type = .done then
      some { s with app := .idle
                    hist := s.hist ++ [⟨.read, c.nodeId, c.addr, localBytes s.node c⟩] }
    else none
  | _ => none

/-- What a request that succeeds does to the memories. -/
def transferData (s : Transfer) (t : ℕ) (wr : IbvSendWr) : Transfer :=
  match wr.opcode with
  | .send => s
  | .rdmaWrite =>
    let bytes := s.node.mem.read wr.sge.addr wr.sge.length
    let mem := (s.remote (s.far t)).write wr.remoteAddr bytes
    { s with remote := Function.update s.remote (s.far t) mem }
  | .rdmaRead =>
    let bytes := (s.remote (s.far t)).read wr.remoteAddr wr.sge.length
    { s with node := { s.node with mem := s.node.mem.write wr.sge.addr bytes } }

def completeStep (s : Transfer) (t : ℕ) (status : IbvWcStatus) : Option Transfer :=
  let q := s.node.qp t
  match q.sq with
  | [] => none
  | wr :: rest =>
    let wc : IbvWc := { wrId := wr.wrId, status := status, opcode := wr.opcode.wc }
    let s' := if status = .success then s.transferData t wr else s
    some { s' with node := s'.node.setQp t { q with sq := rest, cq := q.cq ++ [wc] } }

def recvStep (s : Transfer) (t : ℕ) (status : IbvWcStatus) (bytes : List UInt8) :
    Option Transfer :=
  let q := s.node.qp t
  match q.rq with
  | [] => none
  | wr :: rest =>
    if bytes.length ≤ wr.sge.length ∧ (status = .success ∨ bytes = []) then
      let wc : IbvWc := { wrId := wr.wrId, status := status, opcode := .recv
                          byteLen := bytes.length }
      some { s with node := { s.node.setQp t { q with rq := rest, cq := q.cq ++ [wc] } with
                              mem := s.node.mem.write wr.sge.addr bytes } }
    else none

def pollStep (s : Transfer) (t : ℕ) : Option Transfer :=
  let q := s.node.qp t
  match q.cq with
  | [] => none
  | wc :: rest =>
    if s.running ∧ q.registered then
      some { s with node := dispatchWc (s.node.setQp t { q with cq := rest }) wc }
    else none

/-- rdma_cm resolves a route once, before the transport has a queue pair. -/
def cmStep (s : Transfer) (t : ℕ) (e : CmEvent) : Option Transfer :=
  if s.running ∧ (e.type = .routeResolved → s.node.qp t = {}) then
    some { s with node := (hmpHandleEcEvent s.node t e).1 }
  else none

def step (s : Transfer) : TransferEvent → Option Transfer
  | .call op localAddr hmAddr length => s.callStep op localAddr hmAddr length
  | .check o => s.checkStep o
  | .ret => s.retStep
  | .complete t status => s.completeStep t status
  | .recv t status bytes => s.recvStep t status bytes
  | .poll t => s.pollStep t
  | .cm t e => s.cmStep t e
  | .loopExit => if s.node.stop ∧ s.running then some { s with running := false } else none
  | .store addr bytes => some { s with node := { s.node with mem := s.node.mem.write addr bytes } }
  | .storeRemote j addr bytes =>
    some { s with remote := Function.update s.remote j ((s.remote j).write addr bytes) }

/-- No call is under way, and the table and the queues hold only what has been allocated. -/
def Start (s : Transfer) : Prop :=
  s.app = .idle ∧ s.hist = [] ∧ (∀ k t, s.node.connectTrans k = some t → t < s.node.nextTrans) ∧
    (∀ t, s.node.nextTrans ≤ t → s.node.qp t = {}) ∧ ∀ t, s.node.TasksOk t

def sys : Sys Transfer TransferEvent where
  init := Start
  step := step

/-- The task that a call of `hmp_rdma_read` still waits for. -/
def waitsOn (s : Transfer) : Option ℕ :=
  match s.app with
  | .waiting _ p => if (s.node.task p).type = .done then none else some p
  | _ => none

/-- The steps of the adapter and of the event thread. -/
def Background : TransferEvent → Prop
  | .complete _ _ | .poll _ | .loopExit => True
  | _ => False

/-- A read that gets a task is posted with success, while the event loop runs and the
completion channel of its transport is in the epoll set; its request completes with success;
and until its task is done the loop does not end and its transport is not disconnected. -/
def releasesReads (s : Transfer) : TransferEvent → Bool
  | .check o =>
    match s.app with
    | .checking c =>
      c.op = .read ∧ (s.node.trans c.t).transState = .connected ∧ o.task →
        o.err = 0 ∧ s.running ∧ (s.node.qp c.t).registered
    | _ => true
  | .complete t status =>
    (s.node.qp t).sq.head?.all fun wr => s.waitsOn = some wr.wrId → status = .success
  | .cm t .disconnected =>
    match s.app with
    | .waiting c _ => c.t = t → s.waitsOn = none
    | _ => true
  | .loopExit => s.waitsOn = none
  | _ => true

def ReleasesReads (s : Transfer) (e : TransferEvent) : Prop := s.releasesReads e = true

/-- The queue pair of `t` may read: the pool at the other end is registered for remote
reads, the range lies in it, and the connection has the depths of its two ends. -/
def ReadAllowed (pools : ℕ → HmpMempool) (s : Transfer) (t : ℕ) (wr : IbvSendWr) : Prop :=
  let pool := pools (s.far t)
  let active := (s.node.trans t).cmId.any (·.active)
  .remoteRead ∈ pool.mr.access ∧ pool.baseAddr ≤ wr.remoteAddr ∧
    wr.remoteAddr + wr.sge.length ≤ pool.baseAddr + pool.mr.length ∧
    0 < (if active then connectParam else acceptParam).initiatorDepth ∧
    0 < (if active then acceptParam else connectParam).responderResources

/-- The steps of one call, of the adapter and of the event thread, where a read is posted and
succeeds if it is allowed, and fails at one of the two otherwise. -/
def VerbsReads (pools : ℕ → HmpMempool) (s : Transfer) : TransferEvent → Prop
  | .check o => ∀ c, s.app = .checking c → c.op = .read →
      ReadAllowed pools s c.t
        { wrId := s.node.nextTask, opcode := .rdmaRead
          sge := { addr := c.localAddr, length := (c.length % 2 ^ 32).toNat }
          remoteAddr := c.addr } → o.err = 0
  | .complete t status => ∀ wr ∈ (s.node.qp t).sq.head?, wr.opcode = .rdmaRead →
      (status = .success ↔ ReadAllowed pools s t wr)
  | .ret | .poll _ | .loopExit => True
  | _ => False

/-- The call returns, and then the buffer holds the bytes of the range in the pool of node `j`,
and the memory is as before elsewhere. -/
def ReadReturns (pools : ℕ → HmpMempool) (s : Transfer) (j a dst : ℕ) (length : ℤ) : Prop :=
  ∃ s₁, s.step (.call .read dst (hmpGetHybridMempoolAddr j + BitVec.ofNat 64 a) length) = some s₁ ∧
    ∀ s', sys.Run (VerbsReads pools) s₁ s' →
      (∃ s'', sys.Run (VerbsReads pools) s' s'' ∧ s''.app = .idle) ∧
        (s'.app = .idle →
          s'.node.mem.read dst length.toNat = (s'.memOf j).read a length.toNat ∧
            ∀ x, x < dst ∨ dst + length.toNat ≤ x → s'.node.mem x = s.node.mem x)

/-- A pool as `hmp_mem_init` creates it, after any allocations. -/
def PoolOf (pool : HmpMempool) : Prop :=
  ∃ base pageArray keys pool₀, hmpMempoolCreate HMP_DRAM_MEM_SIZE base pageArray keys = some pool₀ ∧
    pool = { pool₀ with allocSize := pool.allocSize }

/-- No call is under way on this node of a connected cluster. -/
structure Connected (s : Transfer) : Prop where
  idle : s.app = .idle
  nodeCnt : s.node.config.nodeCnt ≤ HMP_NODE_NUM
  curnodeId : s.node.config.curnodeId < s.node.config.nodeCnt
  conn : ∀ k < s.node.config.nodeCnt, k ≠ s.node.config.curnodeId →
    ∃ t, s.node.connectTrans k = some t ∧ s.far t = k ∧ (s.node.trans t).nodeId = k ∧
      (s.node.trans t).transState = .connected
  tasks : ∀ t, s.node.TasksOk t

/-- A connected cluster at the start of a sequence of calls: what is queued are messages. -/
structure Ready (s : Transfer) : Prop extends Connected s where
  start : Start s
  sends : ∀ t, ∀ wr ∈ (s.node.qp t).sq, wr.opcode = .send

/-- Every queue pair leads to a node of the cluster, and `pools k` is the pool of node `k`. -/
structure FullyConnected (pools : ℕ → HmpMempool) (s : Transfer) : Prop extends Connected s where
  pool : ∀ k < s.node.config.nodeCnt, PoolOf (pools k)
  own : s.node.dramMempool = some (pools s.node.config.curnodeId)
  far : ∀ t, s.far t < s.node.config.nodeCnt

/-- The range lies in the pool. -/
def InPool (pool : HmpMempool) (addr : ℕ) (length : ℤ) : Prop :=
  pool.baseAddr ≤ addr ∧ addr + length ≤ pool.baseAddr + pool.size

/-- Address `x` is in the source of a write that has not been executed, or in the buffer of a
read that has not returned. -/
def reserved (s : Transfer) (x : ℕ) : Bool :=
  ((List.range s.node.nextTrans).any fun t => (s.node.qp t).sq.any fun wr =>
    wr.opcode = .rdmaWrite ∧ wr.sge.addr ≤ x ∧ x < wr.sge.addr + wr.sge.length) ||
  match s.app with
  | .idle => false
  | .checking c | .waiting c _ =>
    c.op = .read ∧ c.localAddr ≤ x ∧ x < c.localAddr + c.length.toNat

/-- Addresses `addr` to `addr + n` of the own memory are neither shared nor reserved. -/
def free (shared : ℕ → ℕ → Bool) (s : Transfer) (addr n : ℕ) : Bool :=
  (List.range n).all fun k =>
    !shared s.node.config.curnodeId (addr + k) && !s.reserved (addr + k)

/-- `shared j x`: address `x` of node `j` is accessed by the calls. A call accesses a shared
range from a buffer that is not shared, and a read does not overwrite the source of a write
that has not been executed. Nobody else stores to what is shared or reserved. Every request
is accepted and succeeds, and no connection is lost. -/
def undisturbed (shared : ℕ → ℕ → Bool) (s : Transfer) : TransferEvent → Bool
  | .call op localAddr hmAddr length =>
    0 < length ∧ length < 2 ^ 31 ∧
      (hmpGetHmNodeId s.node.config.nodeCnt hmAddr).all (fun r =>
        (List.range length.toNat).all fun k => shared r.1 (r.2.toNat + k)) ∧
      (List.range length.toNat).all (fun k =>
        !shared s.node.config.curnodeId (localAddr + k)) ∧
      (op = .read → free shared s localAddr length.toNat)
  | .check o => o.err = 0
  | .complete _ status => status = .success
  | .recv t _ bytes => (s.node.qp t).rq.head?.all fun wr => free shared s wr.sge.addr bytes.length
  | .store addr bytes => free shared s addr bytes.length
  | .storeRemote j addr bytes => (List.range bytes.length).all fun k => !shared j (addr + k)
  | .cm _ _ => false
  | .ret | .poll _ | .loopExit => true

def Undisturbed (shared : ℕ → ℕ → Bool) (s : Transfer) (e : TransferEvent) : Prop :=
  s.undisturbed shared e = true

end Transfer

end HMP
