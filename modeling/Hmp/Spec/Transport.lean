import Hmp.Spec.Task

/-! `hmp_transport.c`: queue pairs, the handlers of the event thread, and the
entry points for messages and one-sided transfers. The result of a call into
verbs, rdma_cm or `malloc` is an argument of the function that makes the call. -/

namespace HMP

/-- `task`: `malloc` gave a task. `err`: the result of `ibv_post_send` or `ibv_post_recv`. -/
structure PostOutcome where
  task : Bool := true
  err : ℤ := 0
  deriving DecidableEq

def hmpPostRecv (nd : Node) (t : ℕ) (o : PostOutcome) : Node :=
  if o.task then
    let r := hmpRecvTaskCreate nd t HMP_TASK_SIZE true
    if o.err = 0 then
      let q := r.1.qp t
      r.1.setQp t { q with rq := q.rq ++ [{ wrId := r.2, sge := (r.1.task r.2).sge }] }
    else r.1
  else nd

def hmpPrePostRecv (nd : Node) (t : ℕ) (o₁ o₂ : PostOutcome) : Node :=
  hmpPostRecv (hmpPostRecv nd t o₁) t o₂

def hmpPostSend (nd : Node) (t : ℕ) (msg : HmpMsg) (o : PostOutcome) : Node :=
  if o.task then
    let r := hmpSendTaskCreate nd t msg true
    if o.err = 0 then
      let q := r.1.qp t
      r.1.setQp t
        { q with sq := q.sq ++ [{ wrId := r.2, opcode := .send, sge := (r.1.task r.2).sge }] }
    else r.1
  else nd

def hmpDeviceLookup (nd : Node) (verbs : ℕ) : Option HmpDevice :=
  nd.devList.find? fun d => d.verbs = verbs

/-- `verbs` is `cm_id->verbs`, `route` the result of `rdma_resolve_route`. -/
def onCmAddrResolved (nd : Node) (t : ℕ) (verbs : ℕ) (route : ℤ) : Node × ℤ :=
  let d := hmpDeviceLookup nd verbs
  let nd' := nd.setTrans t { nd.trans t with device := d }
  if d.isNone then (nd', -1) else (nd', route)

/-- The four statements of `hmp_handle_mr_msg`; `data` is the pointer in the message. -/
def mrMsgAddr (nd : Node) (t data : ℕ) : Node :=
  let k := (nd.trans t).nodeId
  let x := nd.config.nodeInfos k
  nd.setInfo k { x with dramMr := { x.dramMr with addr := nd.mem.word data 8 } }

def mrMsgLength (nd : Node) (t data : ℕ) : Node :=
  let k := (nd.trans t).nodeId
  let x := nd.config.nodeInfos k
  nd.setInfo k { x with dramMr := { x.dramMr with length := nd.mem.word (data + 8) 8 } }

def mrMsgRkey (nd : Node) (t data : ℕ) : Node :=
  let k := (nd.trans t).nodeId
  let x := nd.config.nodeInfos k
  nd.setInfo k { x with dramMr := { x.dramMr with rkey := nd.mem.word (data + 16) 4 } }

def mrMsgState (nd : Node) (t : ℕ) : Node := nd.setState t .connected

def hmpHandleMrMsg (nd : Node) (t data : ℕ) : Node :=
  mrMsgState (mrMsgRkey (mrMsgLength (mrMsgAddr nd t data) t data) t data) t

/-- The condition under which a receive completion reaches `hmp_handle_mr_msg`. -/
def isInitMsg (nd : Node) (wc : IbvWc) : Bool :=
  wc.opcode = .recv ∧ nd.mem.word (nd.task wc.wrId).sge.addr 4 = MsgType.init.val

def hmpWcSuccessHandler (nd : Node) (wc : IbvWc) : Node :=
  let task := nd.task wc.wrId
  match wc.opcode with
  | .send => nd
  | .recv => if isInitMsg nd wc then
      hmpHandleMrMsg nd task.rdmaTrans (task.sge.addr + HEADER_SIZE) else nd
  | .rdmaWrite => nd
  | .rdmaRead => nd.setTask wc.wrId { task with type := .done }
  | .recvRdmaWithImm => nd
  | _ => nd

/-- Only logs. -/
def hmpWcErrorHandler (nd : Node) (_ : IbvWc) : Node := nd

/-- The body of the polling loop of `hmp_cq_comp_channel_handler`. -/
def dispatchWc (nd : Node) (wc : IbvWc) : Node :=
  if wc.status = .success then hmpWcSuccessHandler nd wc else hmpWcErrorHandler nd wc

/-- `ret` is the result of the calls inside, 0 when all of them succeed. -/
def hmpQpCreate (nd : Node) (t : ℕ) (ret : ℤ) : Node × ℤ :=
  if ret = 0 then (nd.setQp t { live := true, registered := true }, 0) else (nd, ret)

def hmpQpRelease (nd : Node) (t : ℕ) : Node :=
  if (nd.qp t).live then nd.setQp t {} else nd

structure RdmaConnParam where
  responderResources : ℕ := 0
  initiatorDepth : ℕ := 0
  retryCount : ℕ := 0
  rnrRetryCount : ℕ := 0

/-- `conn_param` of `on_cm_route_resolved`. -/
def connectParam : RdmaConnParam :=
  { responderResources := 1, initiatorDepth := 1, retryCount := 3, rnrRetryCount := 7 }

/-- `conn_param` of `on_cm_connect_request`, cleared by `memset`. -/
def acceptParam : RdmaConnParam := {}

structure RouteOutcome where
  qp : ℤ := 0
  recv₁ : PostOutcome := {}
  recv₂ : PostOutcome := {}
  connect : ℤ := 0
  deriving DecidableEq

def onCmRouteResolved (nd : Node) (t : ℕ) (o : RouteOutcome) : Node × ℤ :=
  let r := hmpQpCreate nd t o.qp
  if r.2 ≠ 0 then r
  else
    let nd' := hmpPrePostRecv r.1 t o.recv₁ o.recv₂
    if o.connect ≠ 0 then
      (({ hmpQpRelease nd' t with stop := true }).setState t .error, o.connect)
    else (nd', 0)

/-- `ok`: the transport and its event channel could be created. -/
def hmpTransportCreate (nd : Node) (ok : Bool) : Node × Option ℕ :=
  if ok then
    ({ nd.setTrans nd.nextTrans {} with nextTrans := nd.nextTrans + 1 }, some nd.nextTrans)
  else (nd, none)

structure RequestOutcome where
  create : Bool := true
  verbs : ℕ := 0
  qp : ℤ := 0
  recv₁ : PostOutcome := {}
  recv₂ : PostOutcome := {}
  accept : ℤ := 0
  deriving DecidableEq

/-- `on_cm_connect_request` up to the queue pair; `none`: it has returned an error. -/
def requestTransport (nd : Node) (cm : CmId) (o : RequestOutcome) : Node × Option ℕ :=
  match hmpTransportCreate nd o.create with
  | (nd, none) => (nd, none)
  | (nd, some t) =>
    let d := hmpDeviceLookup nd o.verbs
    let nd := nd.setTrans t { nd.trans t with cmId := some cm, device := d }
    if d.isNone then (nd, none)
    else
      let r := hmpQpCreate nd t o.qp
      if r.2 ≠ 0 then (r.1, none) else (r.1, some t)

/-- The region that both setups compute for peer `i`. -/
def slotRegion (nd : Node) (i : ℕ) : HmpRegion :=
  let send := nd.baseAddr + i * 4 * HMP_TASK_SIZE
  { sendAddr := send, recvAddr := send + HMP_TASK_SIZE, curRecv := 0 }

/-- The search for the peer address in `on_cm_connect_request`. -/
def requestRegister (nd : Node) (t : ℕ) (peerAddr : String) : Node :=
  match (List.range nd.config.curnodeId).find? fun i => (nd.config.nodeInfos i).addr = peerAddr with
  | some i =>
    { nd.setTrans t { nd.trans t with nodeId := i, region := slotRegion nd i } with
      connectTrans := Function.update nd.connectTrans i (some t) }
  | none => nd

/-- The two receives and `rdma_accept`. -/
def requestAccept (nd : Node) (t : ℕ) (o : RequestOutcome) : Node × ℤ :=
  (hmpPrePostRecv nd t o.recv₁ o.recv₂, if o.accept ≠ 0 then -1 else 0)

def onCmConnectRequest (nd : Node) (cm : CmId) (peerAddr : String) (o : RequestOutcome) :
    Node × ℤ :=
  match requestTransport nd cm o with
  | (nd, none) => (nd, -1)
  | (nd, some t) =>
    let r := requestAccept (requestRegister nd t peerAddr) t o
    if r.2 ≠ 0 then r else (r.1.setState t .connecting, 0)

/-- The payload of the INIT message: address, length and key of the own pool. -/
def initPayload (pool : HmpMempool) : List UInt8 :=
  le 8 pool.baseAddr ++ le 8 pool.mr.length ++ le 4 pool.mr.rkey

def hmpBuildInitMsg (nd : Node) : HmpMsg :=
  { msgType := .init, dataSize := 8 + 8 + 4
    data := fun k => (nd.dramMempool.elim [] initPayload).getD k 0 }

/-- `peer` is the destination address of the route of `cm_id`. -/
def onCmEstablished (nd : Node) (t : ℕ) (peer : SockAddr) (o : PostOutcome) : Node × ℤ :=
  let nd := nd.setTrans t { nd.trans t with peerAddr := peer }
  (hmpPostSend nd t (hmpBuildInitMsg nd) o, 0)

/-- `rdma_destroy_qp`, and the completion channel leaves the epoll set. -/
def onCmDisconnected (nd : Node) (t : ℕ) : Node × ℤ :=
  (nd.setQp t { nd.qp t with live := false, registered := false }, 0)

/-- The cases of `hmp_handle_ec_event` without a handler of their own. -/
def ecError (nd : Node) (t : ℕ) (event : RdmaCmEventType) : Node × ℤ :=
  match event with
  | .connectError => (({ nd with stop := true }).setState t .error, -1)
  | _ => (nd, -1)

/-- `hmp_handle_ec_event` has a handler for the events of this type. -/
def RdmaCmEventType.handled : RdmaCmEventType → Bool
  | .addrResolved | .routeResolved | .connectRequest | .established | .disconnected => true
  | _ => false

/-- The types for which it returns -1. -/
abbrev UnhandledType := { type : RdmaCmEventType // type.handled = false }

theorem UnhandledType.ne (type : UnhandledType) {t : RdmaCmEventType} (ht : t.handled = true) :
    type.1 ≠ t := by
  rintro rfl
  simp [type.2] at ht

/-- A CM event with the results of the calls that its handler makes. -/
inductive CmEvent where
  | addrResolved (verbs : ℕ) (route : ℤ)
  | routeResolved (o : RouteOutcome)
  | connectRequest (cm : CmId) (peerAddr : String) (o : RequestOutcome)
  | established (peer : SockAddr) (o : PostOutcome)
  | disconnected
  | other (type : UnhandledType)
  deriving DecidableEq

def CmEvent.type : CmEvent → RdmaCmEventType
  | .addrResolved .. => .addrResolved
  | .routeResolved _ => .routeResolved
  | .connectRequest .. => .connectRequest
  | .established .. => .established
  | .disconnected => .disconnected
  | .other type => type

/-- `t` is `event->id->context`. -/
def hmpHandleEcEvent (nd : Node) (t : ℕ) : CmEvent → Node × ℤ
  | .addrResolved verbs route => onCmAddrResolved nd t verbs route
  | .routeResolved o => onCmRouteResolved nd t o
  | .connectRequest cm peerAddr o => onCmConnectRequest nd cm peerAddr o
  | .established peer o => onCmEstablished nd t peer o
  | .disconnected => onCmDisconnected nd t
  | .other type => ecError nd t type

def hmpTransportListen (nd : Node) (ret : ℤ) : Node × ℤ :=
  if ret ≠ 0 then (nd, ret) else ({ nd with listenState := .listen }, 0)

/-- `pton` is the result of `inet_pton`. -/
def hmpPortUriInit (nd : Node) (t : ℕ) (url : String) (port : ℤ) (pton : ℤ) : Node × ℤ :=
  if pton ≤ 0 then (nd, pton)
  else (nd.setTrans t { nd.trans t with peerAddr := { addr := url, port := (port % 2 ^ 16).toNat } },
    pton)

/-- `hmp_transport_connect` before `rdma_create_id`; `some ret`: it has returned. -/
def connectEntry (nd : Node) (t : ℕ) (url : String) (port : ℤ) (pton : ℤ) : Node × Option ℤ :=
  if port = 0 then (nd, some (-1))
  else
    let r := hmpPortUriInit nd t url port pton
    if r.2 < 0 then (r.1, some r.2) else (r.1, none)

/-- `rdma_create_id` gives the id `cm` unless it fails. -/
def connectCreateId (nd : Node) (t : ℕ) (cm : CmId) (ret : ℤ) : Node × Option ℤ :=
  if ret ≠ 0 then (nd.setTrans t { nd.trans t with cmId := none }, some ret)
  else (nd.setTrans t { nd.trans t with cmId := some cm }, none)

def connectResolve (nd : Node) (t : ℕ) (ret : ℤ) : Node × Option ℤ :=
  if ret ≠ 0 then (nd.setTrans t { nd.trans t with cmId := none }, some ret) else (nd, none)

/-- `none`: the loop still spins. -/
def hmpTransportCheckState (st : TransportState) : Option ℤ :=
  if st.val < TransportState.connected.val then none
  else if TransportState.connected.val < st.val then some (-1)
  else some 0

/-- The part of `hmp_rdma_read` and `hmp_rdma_write` after the state check: the
task and the posted request. The result is the task, if there is one. -/
def rdmaPost (create : Node → ℕ → ℕ → ℤ → Bool → Node × ℕ) (opcode : IbvWrOpcode) (nd : Node)
    (t localAddr remoteAddr : ℕ) (length : ℤ) (o : PostOutcome) : Node × Option ℕ :=
  if o.task then
    let r := create nd t localAddr length true
    let wr : IbvSendWr :=
      { wrId := r.2, opcode := opcode, sge := (r.1.task r.2).sge, remoteAddr := remoteAddr
        rkey := (r.1.config.nodeInfos (r.1.trans t).nodeId).dramMr.rkey }
    let q := r.1.qp t
    (if o.err = 0 then r.1.setQp t { q with sq := q.sq ++ [wr] } else r.1, some r.2)
  else (nd, none)

def hmpRdmaReadPost : Node → ℕ → ℕ → ℕ → ℤ → PostOutcome → Node × Option ℕ :=
  rdmaPost hmpReadTaskCreate .rdmaRead

def hmpRdmaWritePost : Node → ℕ → ℕ → ℕ → ℤ → PostOutcome → Node × Option ℕ :=
  rdmaPost hmpWriteTaskCreate .rdmaWrite

end HMP
