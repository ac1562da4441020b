import Hmp.Spec.Attempt
import Hmp.Spec.Transfer

/-! A cluster that starts up: each node has its main thread in `hmp_node_init`,
its event thread, and application threads that start one-sided transfers. The
steps of the main thread are its statements; those of the event thread end where
one access to data that the main thread also uses has been made. -/

namespace HMP

/-- The config that every node has loaded; its addresses are in `inet_ntoa` form. -/
structure ClusterConfig where
  nodeCnt : ℕ
  nodeInfos : ℕ → HmpNodeInfo
  nodeCnt_le : nodeCnt ≤ HMP_NODE_NUM
  distinct : ∀ i < nodeCnt, ∀ j < nodeCnt, (nodeInfos i).addr = (nodeInfos j).addr → i = j

namespace ClusterConfig

def config (cfg : ClusterConfig) (id : ℕ) : HmpConfig :=
  { nodeInfos := cfg.nodeInfos, curnodeId := id, nodeCnt := cfg.nodeCnt }

/-- The node that uses an address. -/
def nodeAt (cfg : ClusterConfig) (addr : String) : Option ℕ :=
  (List.range cfg.nodeCnt).find? fun i => (cfg.nodeInfos i).addr = addr

end ClusterConfig

/-- The next of the four assignments to the new transport in `hmp_node_init`. -/
inductive PeerStmt where
  | nodeId | curRecv | sendAddr | recvAddr
  deriving DecidableEq

/-- Where the main thread stands in `hmp_node_init`; `k` is its loop variable, and `t` the
value of `connect_trans[k]`. `exited`: it has called `exit`. -/
inductive MainPc where
  | memInit | listen | memset
  | loop (k : ℕ)
  | peer (k t : ℕ) (stmt : PeerStmt)
  | connect (k t : ℕ) (pc : ConnectPc)
  | done | exited
  deriving DecidableEq

def PeerStmt.exec (nd : Node) (k t : ℕ) : PeerStmt → Node
  | .nodeId => peerNodeId nd t k
  | .curRecv => peerCurRecv nd t
  | .sendAddr => peerSendAddr nd t k
  | .recvAddr => peerRecvAddr nd t

def PeerStmt.next (k t : ℕ) : PeerStmt → MainPc
  | .nodeId => .peer k t .curRecv
  | .curRecv => .peer k t .sendAddr
  | .sendAddr => .peer k t .recvAddr
  | .recvAddr => .connect k t .entry

/-- The next statement of `hmp_handle_mr_msg`. -/
inductive MrStmt where
  | addr | length | rkey | state
  deriving DecidableEq

def MrStmt.exec (nd : Node) (t data : ℕ) : MrStmt → Node
  | .addr => mrMsgAddr nd t data
  | .length => mrMsgLength nd t data
  | .rkey => mrMsgRkey nd t data
  | .state => mrMsgState nd t

/-- Where the event thread stands: between two handlers; in `on_cm_connect_request` for
connection `c`, before the search for the peer address, before the receives, or before the store to
`trans_state`; or in `hmp_handle_mr_msg` with the message at `data`. `ended`: the loop is over. -/
inductive LoopPc where
  | idle
  | storing (c t : ℕ)
  | accepting (c t : ℕ)
  | connecting (t : ℕ)
  | mr (t data : ℕ) (stmt : MrStmt)
  | ended
  deriving DecidableEq

def MrStmt.next (t data : ℕ) : MrStmt → LoopPc
  | .addr => .mr t data .length
  | .length => .mr t data .rkey
  | .rkey => .mr t data .state
  | .state => .idle

/-- What rdma_cm has done for a connection. `requested`: `rdma_connect` has been called;
`answering`: the peer handles the request; `accepted`: it has called `rdma_accept`. -/
inductive ConnPhase where
  | created | addr | route | requested | answering | accepted | dead
  deriving DecidableEq

/-- A connection from transport `srcTrans` of node `src`. `dst`: the node that uses the
address given to `rdma_resolve_addr`, and `dstTrans` its transport. `srcEst`, `dstEst`: the end
has handled ESTABLISHED. `toDst`, `toSrc`: the messages on the way. -/
structure Conn where
  src : ℕ := 0
  srcTrans : ℕ := 0
  dst : Option ℕ := none
  dstTrans : Option ℕ := none
  phase : ConnPhase := .created
  srcEst : Bool := false
  dstEst : Bool := false
  toDst : List (List UInt8) := []
  toSrc : List (List UInt8) := []

namespace Conn

/-- The connection after an end of it has handled event `e` with result `ret`; `none`: rdma_cm
does not deliver `e` there. -/
def handled (x : Conn) (active : Bool) (e : CmEvent) (ret : ℤ) : Option Conn :=
  match e with
  | .addrResolved .. =>
    if active = true ∧ x.phase = .addr then
      some { x with phase := if ret = 0 then .route else .dead } else none
  | .routeResolved _ =>
    if active = true ∧ x.phase = .route then
      some { x with phase := if ret = 0 then .requested else .dead } else none
  | .connectRequest .. => none
  | .established .. =>
    if x.phase ≠ .accepted then none
    else if active then (if x.srcEst then none else some { x with srcEst := true })
    else if x.dstEst then none else some { x with dstEst := true }
  | .disconnected =>
    if (x.phase = .accepted ∨ x.phase = .dead) ∧ (if active then x.srcEst else x.dstEst) = true then
      some { x with phase := .dead } else none
  | .other type =>
    if x.phase = .created then none
    else some { x with phase := if Attempt.endsAttempt type then .dead else x.phase }

/-- A message leaves an end. -/
def push (x : Conn) (active : Bool) (bytes : List UInt8) : Conn :=
  if active then { x with toDst := x.toDst ++ [bytes] } else { x with toSrc := x.toSrc ++ [bytes] }

/-- The oldest message for an end, with the connection without it. -/
def pop (x : Conn) (active : Bool) : Option (List UInt8 × Conn) :=
  match active, x.toSrc, x.toDst with
  | true, bytes :: rest, _ => some (bytes, { x with toSrc := rest })
  | false, _, bytes :: rest => some (bytes, { x with toDst := rest })
  | _, _, _ => none

end Conn

/-- `checked i`: the transports on which a thread of node `i` has passed
`hmp_transport_check_state` and not posted yet. `posted`: the requests of one-sided
transfers, with node and transport. -/
structure Cluster where
  node : ℕ → Node
  main : ℕ → MainPc := fun _ => .memInit
  loop : ℕ → LoopPc := fun _ => .idle
  conn : ℕ → Conn := fun _ => {}
  nconn : ℕ := 0
  checked : ℕ → List ℕ := fun _ => []
  posted : List (ℕ × ℕ × IbvSendWr) := []

/-- The steps of a node. `memInit`, `main`: the main thread, with the results of the calls it
makes. `cm`, `request`, `register`, `accept`, `requestDone`, `poll`, `mr`, `loopExit`: the event
thread. `complete`, `deliver`, `recvError`: the adapter; a send with an error status may have
been `sent`. `check`, `post`: a thread in `hmp_rdma_read` or `hmp_rdma_write`. `store`: a store of the
application, or the data of a one-sided transfer. -/
inductive NodeEvent where
  | memInit (base : Option (Block (poolPages HMP_DRAM_MEM_SIZE * HMP_PAGE_SIZE)))
      (pageArray : Bool) (keys : Option MrKeys)
  | main (ret : ℤ)
  | cm (t : ℕ) (e : CmEvent)
  | request (c : ℕ) (o : RequestOutcome)
  | register
  | accept (o : RequestOutcome)
  | requestDone
  | poll (t : ℕ)
  | mr
  | loopExit
  | complete (t : ℕ) (status : IbvWcStatus) (sent : Bool)
  | deliver (t : ℕ)
  | recvError (t : ℕ) (status : IbvWcStatus)
  | check (t : ℕ)
  | post (t : ℕ) (op : TransferOp) (localAddr remoteAddr : ℕ) (length : ℤ) (o : PostOutcome)
  | store (addr : ℕ) (bytes : List UInt8)

namespace Cluster

@[simps -fullyApplied] def setNode (s : Cluster) (i : ℕ) (nd : Node) : Cluster :=
  { s with node := Function.update s.node i nd }

@[simps -fullyApplied] def setMain (s : Cluster) (i : ℕ) (pc : MainPc) : Cluster :=
  { s with main := Function.update s.main i pc }

@[simps -fullyApplied] def setLoop (s : Cluster) (i : ℕ) (pc : LoopPc) : Cluster :=
  { s with loop := Function.update s.loop i pc }

@[simps -fullyApplied] def setConn (s : Cluster) (c : ℕ) (x : Conn) : Cluster :=
  { s with conn := Function.update s.conn c x }

/-- `rdma_create_id` gives the next connection its active end. -/
@[simps -fullyApplied] def addConn (s : Cluster) (x : Conn) : Cluster :=
  { s with conn := Function.update s.conn s.nconn x, nconn := s.nconn + 1 }

/-- `hmp_mem_init`, which exits where the pool cannot be created. -/
def memInitStep (s : Cluster) (i : ℕ) (pool : Option HmpMempool) : Option Cluster :=
  match s.main i, pool with
  | .memInit, some pool => some ((s.setNode i (hmpMemInit (s.node i) pool)).setMain i .listen)
  | .memInit, none => some (s.setMain i .exited)
  | _, _ => none

/-- A statement of `hmp_transport_connect`, whose result the loop ignores. `inet_pton`
returns 1 for an address in `inet_ntoa` form. -/
def connectStep (cfg : ClusterConfig) (s : Cluster) (i k t : ℕ) (pc : ConnectPc) (ret : ℤ) :
    Option Cluster :=
  let nd := s.node i
  match pc with
  | .entry =>
    let x := nd.config.nodeInfos k
    let r := connectEntry nd t x.addr x.port 1
    some ((s.setNode i r.1).setMain i (r.2.elim (.connect k t .createId) fun _ => .loop (k + 1)))
  | .createId =>
    match connectCreateId nd t ⟨s.nconn, true⟩ ret with
    | (nd, some _) => some ((s.setNode i nd).setMain i (.loop (k + 1)))
    | (nd, none) => some (((s.setNode i nd).setMain i (.connect k t .resolveAddr)).addConn
        { src := i, srcTrans := t })
  | .resolveAddr =>
    match connectResolve nd t ret, (nd.trans t).cmId with
    | (nd, some _), _ => some ((s.setNode i nd).setMain i (.loop (k + 1)))
    | (nd, none), some cm => some (((s.setNode i nd).setMain i (.connect k t .setState)).setConn
        cm.conn { s.conn cm.conn with phase := .addr, dst := cfg.nodeAt (nd.trans t).peerAddr.addr })
    | (_, none), none => none
  | .setState => some ((s.setNode i (nd.setState t .connecting)).setMain i (.loop (k + 1)))
  | .returned _ => none

def mainStep (cfg : ClusterConfig) (s : Cluster) (i : ℕ) (ret : ℤ) : Option Cluster :=
  let nd := s.node i
  match s.main i with
  | .listen => some ((s.setNode i (hmpTransportListen nd ret).1).setMain i .memset)
  | .memset => some ((s.setNode i (clearTable nd)).setMain i (.loop (nd.config.curnodeId + 1)))
  | .loop k =>
    if k < nd.config.nodeCnt then
      match peerCreate nd k (ret = 0) with
      | (nd, none) => some ((s.setNode i nd).setMain i .exited)
      | (nd, some t) => some ((s.setNode i nd).setMain i (.peer k t .nodeId))
    else some (s.setMain i .done)
  | .peer k t stmt => some ((s.setNode i (stmt.exec nd k t)).setMain i (stmt.next k t))
  | .connect k t pc => s.connectStep cfg i k t pc ret
  | .memInit | .done | .exited => none

def cmStep (s : Cluster) (i t : ℕ) (e : CmEvent) : Option Cluster :=
  match s.loop i, ((s.node i).trans t).cmId with
  | .idle, some cm =>
    let r := hmpHandleEcEvent (s.node i) t e
    ((s.conn cm.conn).handled cm.active e r.2).map fun x => (s.setNode i r.1).setConn cm.conn x
  | _, _ => none

/-- `on_cm_connect_request` up to the queue pair, on the node that the request has reached. -/
def requestStep (s : Cluster) (i c : ℕ) (o : RequestOutcome) : Option Cluster :=
  let x := s.conn c
  if c < s.nconn ∧ x.phase = .requested ∧ x.dst = some i ∧ (s.node i).listenState = .listen ∧
      s.loop i = .idle then
    match requestTransport (s.node i) ⟨c, false⟩ o with
    | (nd, none) => some ((s.setNode i nd).setConn c { x with phase := .dead })
    | (nd, some t) => some (((s.setNode i nd).setConn c
        { x with phase := .answering, dstTrans := some t }).setLoop i (.storing c t))
  else none

/-- The request comes from the configured address of its node. -/
def registerStep (cfg : ClusterConfig) (s : Cluster) (i : ℕ) : Option Cluster :=
  match s.loop i with
  | .storing c t =>
    let addr := (cfg.nodeInfos (s.conn c).src).addr
    some ((s.setNode i (requestRegister (s.node i) t addr)).setLoop i (.accepting c t))
  | _ => none

def acceptStep (s : Cluster) (i : ℕ) (o : RequestOutcome) : Option Cluster :=
  match s.loop i with
  | .accepting c t =>
    let r := requestAccept (s.node i) t o
    let x := s.conn c
    if r.2 ≠ 0 then some (((s.setNode i r.1).setConn c { x with phase := .dead }).setLoop i .idle)
    else some (((s.setNode i r.1).setConn c
      { x with phase := if x.phase = .answering then .accepted else x.phase }).setLoop i
        (.connecting t))
  | _ => none

def requestDoneStep (s : Cluster) (i : ℕ) : Option Cluster :=
  match s.loop i with
  | .connecting t => some ((s.setNode i ((s.node i).setState t .connecting)).setLoop i .idle)
  | _ => none

/-- The channel may have left the epoll set after `epoll_wait` reported it. -/
def pollStep (s : Cluster) (i t : ℕ) : Option Cluster :=
  let q := (s.node i).qp t
  match s.loop i, q.cq with
  | .idle, wc :: rest =>
    let nd := (s.node i).setQp t { q with cq := rest }
    let task := nd.task wc.wrId
    if wc.status = .success ∧ isInitMsg nd wc then
      some ((s.setNode i nd).setLoop i (.mr task.rdmaTrans (task.sge.addr + HEADER_SIZE) .addr))
    else some (s.setNode i (dispatchWc nd wc))
  | _, _ => none

def mrStep (s : Cluster) (i : ℕ) : Option Cluster :=
  match s.loop i with
  | .mr t data stmt =>
    some ((s.setNode i (stmt.exec (s.node i) t data)).setLoop i (stmt.next t data))
  | _ => none

/-- The bytes of a send leave when the adapter executes it. -/
def completeStep (s : Cluster) (i t : ℕ) (status : IbvWcStatus) (sent : Bool) : Option Cluster :=
  let q := (s.node i).qp t
  match ((s.node i).trans t).cmId, q.sq with
  | some cm, wr :: rest =>
    let wc : IbvWc := { wrId := wr.wrId, status := status, opcode := wr.opcode.wc }
    let s' := s.setNode i ((s.node i).setQp t { q with sq := rest, cq := q.cq ++ [wc] })
    if wr.opcode = .send ∧ (status = .success ∨ sent = true) then
      let bytes := (s.node i).mem.read wr.sge.addr wr.sge.length
      some (s'.setConn cm.conn ((s.conn cm.conn).push cm.active bytes))
    else some s'
  | _, _ => none

/-- A message goes into the oldest posted receive. -/
def deliverStep (s : Cluster) (i t : ℕ) : Option Cluster :=
  let q := (s.node i).qp t
  match ((s.node i).trans t).cmId, q.rq with
  | some cm, wr :: rest =>
    ((s.conn cm.conn).pop cm.active).bind fun m =>
      if q.live ∧ m.1.length ≤ wr.sge.length then
        let wc : IbvWc := { wrId := wr.wrId, status := .success, opcode := .recv
                            byteLen := m.1.length }
        let nd := (s.node i).setQp t { q with rq := rest, cq := q.cq ++ [wc] }
        some ((s.setNode i { nd with mem := nd.mem.write wr.sge.addr m.1 }).setConn cm.conn m.2)
      else none
  | _, _ => none

def recvErrorStep (s : Cluster) (i t : ℕ) (status : IbvWcStatus) : Option Cluster :=
  let q := (s.node i).qp t
  match q.rq with
  | [] => none
  | wr :: rest =>
    if status = .success then none
    else
      let wc : IbvWc := { wrId := wr.wrId, status := status, opcode := .recv }
      some (s.setNode i ((s.node i).setQp t { q with rq := rest, cq := q.cq ++ [wc] }))

def checkStep (s : Cluster) (i t : ℕ) : Option Cluster :=
  if hmpTransportCheckState ((s.node i).trans t).transState = some 0 then
    some { s with checked := Function.update s.checked i (t :: s.checked i) }
  else none

def rdmaPostOf : TransferOp → Node → ℕ → ℕ → ℕ → ℤ → PostOutcome → Node × Option ℕ
  | .read => hmpRdmaReadPost
  | .write => hmpRdmaWritePost

def postStep (s : Cluster) (i t : ℕ) (op : TransferOp) (localAddr remoteAddr : ℕ) (length : ℤ)
    (o : PostOutcome) : Option Cluster :=
  if t ∈ s.checked i then
    let nd := (rdmaPostOf op (s.node i) t localAddr remoteAddr length o).1
    let wrs := (nd.qp t).sq.drop ((s.node i).qp t).sq.length
    some { s.setNode i nd with
      checked := Function.update s.checked i ((s.checked i).erase t)
      posted := s.posted ++ wrs.map fun wr => (i, t, wr) }
  else none

def nodeStep (cfg : ClusterConfig) (s : Cluster) (i : ℕ) : NodeEvent → Option Cluster
  | .memInit base pageArray keys =>
    s.memInitStep i (hmpMempoolCreate HMP_DRAM_MEM_SIZE base pageArray keys)
  | .main ret => s.mainStep cfg i ret
  | .cm t e => s.cmStep i t e
  | .request c o => s.requestStep i c o
  | .register => s.registerStep cfg i
  | .accept o => s.acceptStep i o
  | .requestDone => s.requestDoneStep i
  | .poll t => s.pollStep i t
  | .mr => s.mrStep i
  | .loopExit => if (s.node i).stop ∧ s.loop i = .idle then some (s.setLoop i .ended) else none
  | .complete t status sent => s.completeStep i t status sent
  | .deliver t => s.deliverStep i t
  | .recvError t status => s.recvErrorStep i t status
  | .check t => s.checkStep i t
  | .post t op localAddr remoteAddr length o => s.postStep i t op localAddr remoteAddr length o
  | .store addr bytes =>
    some (s.setNode i { s.node i with mem := (s.node i).mem.write addr bytes })

def step (cfg : ClusterConfig) (s : Cluster) (e : ℕ × NodeEvent) : Option Cluster :=
  if e.1 < cfg.nodeCnt then s.nodeStep cfg e.1 e.2 else none

/-- Every process has loaded the config and found its own id, and its event thread waits. -/
def Start (cfg : ClusterConfig) (s : Cluster) : Prop :=
  (∀ i < cfg.nodeCnt, ∃ id devs mem,
      hmpSetCurnodeId (cfg.config id) (cfg.nodeInfos i).addr = some id ∧
        s.node i = { config := cfg.config id, devList := devs, mem := mem }) ∧
    (∀ i < cfg.nodeCnt, s.main i = .memInit ∧ s.loop i = .idle ∧ s.checked i = []) ∧
    s.nconn = 0 ∧ s.posted = []

def sys (cfg : ClusterConfig) : Sys Cluster (ℕ × NodeEvent) where
  init := Start cfg
  step := step cfg

/-- The node at the other end of a transport. -/
def otherEnd (s : Cluster) (i t : ℕ) : Option ℕ :=
  ((s.node i).trans t).cmId.bind fun cm =>
    if cm.active then (s.conn cm.conn).dst else some (s.conn cm.conn).src

/-- Nothing but messages is stored into the message area of a pool. -/
def SlotsUntouched (cfg : ClusterConfig) (s : Cluster) (e : ℕ × NodeEvent) : Prop :=
  match e with
  | (i, .store addr bytes) => ∀ pool, (s.node i).dramMempool = some pool →
      addr + bytes.length ≤ pool.baseAddr ∨ pool.baseAddr + msgArea cfg.nodeCnt ≤ addr
  | _ => True

/-- No call of the step fails, and neither does the connection. -/
def noFailure (s : Cluster) : ℕ × NodeEvent → Bool
  | (_, .memInit base pageArray keys) =>
    (hmpMempoolCreate HMP_DRAM_MEM_SIZE base pageArray keys).isSome
  | (i, .main ret) =>
    match s.main i with
    | .connect k _ .entry => ((s.node i).config.nodeInfos k).port ≠ 0
    | _ => ret = 0
  | (i, .cm _ (.addrResolved verbs route)) =>
    (hmpDeviceLookup (s.node i) verbs).isSome ∧ route = 0
  | (_, .cm _ (.routeResolved o)) =>
    o.qp = 0 ∧ o.recv₁.posted ∧ o.recv₂.posted ∧ o.connect = 0
  | (_, .cm _ (.established _ o)) => o.posted
  | (_, .cm _ _) => false
  | (i, .request _ o) => o.create ∧ (hmpDeviceLookup (s.node i) o.verbs).isSome ∧ o.qp = 0
  | (_, .accept o) => o.recv₁.posted ∧ o.recv₂.posted ∧ o.accept = 0
  | (_, .complete _ status _) => status = .success
  | (_, .recvError ..) => false
  | (_, .post _ _ _ _ _ o) => o.posted
  | _ => true

/-- The event thread stores an accepted transport into the table while the main thread
has yet to clear it. -/
def storesBeforeClear (s : Cluster) : ℕ × NodeEvent → Bool
  | (i, .register) => s.main i = .memset
  | _ => false

def NoFailure (s : Cluster) (e : ℕ × NodeEvent) : Prop := s.noFailure e = true

def ClearedFirst (s : Cluster) (e : ℕ × NodeEvent) : Prop :=
  s.noFailure e = true ∧ s.storesBeforeClear e = false

/-- All nodes have finished `hmp_node_init`, and all connections are established. -/
def AllConnected (cfg : ClusterConfig) (s : Cluster) : Prop :=
  (∀ i < cfg.nodeCnt, s.main i = .done) ∧
    ∀ c < s.nconn, (s.conn c).srcEst = true ∧ (s.conn c).dstEst = true

/-- Transport `t` of node `i` is not CONNECTED, and no call posts a request on it. -/
def Unused (cfg : ClusterConfig) (s : Cluster) (i t : ℕ) : Prop :=
  ((s.node i).trans t).transState ≠ .connected ∧
    ∀ op localAddr remoteAddr length o,
      step cfg s (i, .post t op localAddr remoteAddr length o) = none

/-- Node `i` handles no completion with an INIT message of transport `t`. -/
def NoInitOf (i t : ℕ) (s : Cluster) (e : ℕ × NodeEvent) : Prop :=
  match e with
  | (j, .poll u) => j = i → ∀ wc ∈ ((s.node i).qp u).cq.head?, wc.status = .success →
      isInitMsg (s.node i) wc = true → ((s.node i).task wc.wrId).rdmaTrans ≠ t
  | _ => True

/-- Transport `t` of node `i` and transport `u` of node `j` are the two ends of one connection. -/
def TwoEnds (s : Cluster) (i t j u : ℕ) : Prop :=
  ∃ c active, ((s.node i).trans t).cmId = some ⟨c, active⟩ ∧
    ((s.node j).trans u).cmId = some ⟨c, !active⟩ ∧ s.otherEnd i t = some j ∧
    s.otherEnd j u = some i

end Cluster

end HMP
