import Hmp.Spec.Transfer
import Hmp.Spec.Verbs

/-! The functions of `hmp_transport.c` that create and destroy resources, with every call into the
libraries that may fail. Each does to the `Node` what the function of the same name does in
`Hmp.Spec.Transport`. -/

namespace HMP

/-- The pointers of `struct hmp_transport` to what the libraries hold. -/
structure TransPtrs where
  eventChannel : Option ℕ := none
  hcq : Option ℕ := none
  qp : Option ℕ := none
  deriving DecidableEq

/-- The pointers of `struct rdma_cm_id`; `context`: a transport of the transport table. -/
structure CmPtrs where
  context : Option ℕ := none
  qp : Option ℕ := none
  deriving DecidableEq

/-- A process with what the libraries hold for it. `listenChannel`, `listenDevice`: of
`curnode.listen_trans`. `mr`: `curnode.dram_mempool->mr`. -/
structure Proc where
  real : Transfer
  world : World := .empty
  ptrs : ℕ → TransPtrs := fun _ => {}
  cm : CmId → CmPtrs := fun _ => {}
  numDevices : ℤ := 0
  listenChannel : Option ℕ := none
  listenDevice : Option HmpDevice := none
  mr : Option ℕ := none

/-- The calls of `hmp_event_channel_create`: `rdma_create_event_channel`, `fcntl` twice, and what
`hmp_context_add_event_fd` needs. -/
structure ChannelCalls where
  create : Bool := true
  getFl : Bool := true
  setFl : Bool := true
  addFd : Bool := true
  deriving DecidableEq

/-- The calls of `hmp_transport_create`. -/
structure CreateCalls extends ChannelCalls where
  calloc : Bool := true
  deriving DecidableEq

/-- `hmp_transport_create` returns a transport. -/
def CreateCalls.ok (o : CreateCalls) : Bool := o.calloc && o.create && (o.getFl && o.setFl)

/-- The calls of `hmp_cq_get` and `hmp_qp_create`. -/
structure QpCalls where
  hcq : Bool := true
  compChannel : Bool := true
  getFl : Bool := true
  setFl : Bool := true
  addFd : Bool := true
  createCq : Bool := true
  reqNotify : ℤ := 0
  createQp : ℤ := 0
  deriving DecidableEq

namespace World

/-- The labels of `hmp_cq_get`. -/
def cleanHcq (w : World) (h : ℕ) : World := w.freeHcq h

def cleanChannel (w : World) (h fd : ℕ) : World := (w.closeFd fd).cleanHcq h

def cleanEventFd (w : World) (h fd : ℕ) : World := (w.delEventFd fd).cleanChannel h fd

/-- The result is the pointer to the new `struct hmp_cq`. -/
def hmpCqGet (w : World) (o : QpCalls) : World × Option ℕ :=
  if o.hcq then
    let h := w.hcqs.next
    let w := w.callocHcq
    if o.compChannel then
      let fd := w.files.next
      let w := (w.openFd .compChannel).modifyHcq h fun x => { x with compChannel := some fd }
      if o.getFl ∧ o.setFl then
        let r := w.addEventFd fd h .hmpCqCompChannelHandler o.addFd
        if r.2 = 0 then
          if o.createCq then
            let c := r.1.cqs.next
            let w := (r.1.ibvCreateCq fd).modifyHcq h fun x => { x with cq := some c }
            if o.reqNotify = 0 then (w, some h) else (w.cleanEventFd h fd, none)
          else (r.1.cleanEventFd h fd, none)
        else (r.1.cleanChannel h fd, none)
      else (w.cleanChannel h fd, none)
    else (w.cleanHcq h, none)
  else (w, none)

/-- The statements of `hmp_qp_release` on `rdma_trans->hcq`. -/
def releaseHcq (w : World) (h : ℕ) : World :=
  match w.hcqs.get h with
  | none => w
  | some x =>
    let w := x.cq.elim w w.ibvDestroyCq
    (x.compChannel.elim w w.delEventFd).freeHcq h

/-- The result of `hmp_context_add_event_fd` is not looked at. -/
def hmpEventChannelCreate (w : World) (o : ChannelCalls) : World × Option ℕ :=
  if o.create then
    let fd := w.files.next
    let w := w.openFd .eventChannel
    if o.getFl ∧ o.setFl then
      ((w.addEventFd fd fd .hmpEventChannelHandler o.addFd).1, some fd)
    else (w.closeFd fd, none)
  else (w, none)

end World

namespace Proc

def node (p : Proc) : Node := p.real.node

def setNode (p : Proc) (nd : Node) : Proc := { p with real := { p.real with node := nd } }

def setWorld (p : Proc) (w : World) : Proc := { p with world := w }

def setPtrs (p : Proc) (t : ℕ) (x : TransPtrs) : Proc :=
  { p with ptrs := Function.update p.ptrs t x }

def setCm (p : Proc) (cm : CmId) (x : CmPtrs) : Proc := { p with cm := Function.update p.cm cm x }

section setters

variable (p : Proc) (nd : Node) (w : World) (t : ℕ) (x : TransPtrs) (cm : CmId) (y : CmPtrs)

@[simp] theorem setNode_node : (p.setNode nd).node = nd := rfl
@[simp] theorem setNode_world : (p.setNode nd).world = p.world := rfl
@[simp] theorem setNode_ptrs : (p.setNode nd).ptrs = p.ptrs := rfl
@[simp] theorem setNode_cm : (p.setNode nd).cm = p.cm := rfl
@[simp] theorem setWorld_node : (p.setWorld w).node = p.node := rfl
@[simp] theorem setWorld_world : (p.setWorld w).world = w := rfl
@[simp] theorem setWorld_ptrs : (p.setWorld w).ptrs = p.ptrs := rfl
@[simp] theorem setWorld_cm : (p.setWorld w).cm = p.cm := rfl
@[simp] theorem setPtrs_node : (p.setPtrs t x).node = p.node := rfl
@[simp] theorem setPtrs_world : (p.setPtrs t x).world = p.world := rfl
@[simp] theorem setPtrs_ptrs : (p.setPtrs t x).ptrs = Function.update p.ptrs t x := rfl
@[simp] theorem setPtrs_cm : (p.setPtrs t x).cm = p.cm := rfl
@[simp] theorem setCm_node : (p.setCm cm y).node = p.node := rfl
@[simp] theorem setCm_world : (p.setCm cm y).world = p.world := rfl
@[simp] theorem setCm_ptrs : (p.setCm cm y).ptrs = p.ptrs := rfl
@[simp] theorem setCm_cm : (p.setCm cm y).cm = Function.update p.cm cm y := rfl

end setters

/-- `cm` and `d` are `rdma_trans->cm_id` and `rdma_trans->device`. -/
def hmpQpCreate (p : Proc) (t : ℕ) (cm : CmId) (d : HmpDevice) (o : QpCalls) : Proc × ℤ :=
  match p.world.hmpCqGet o with
  | (w, none) => (p.setWorld w, -1)
  | (w, some h) =>
    if o.createQp ≠ 0 then (p.setWorld (w.freeHcq h), o.createQp)
    else
      let q := w.qps.next
      let qp : IbvQp := { verbs := d.verbs, pd := d.pd, cq := (w.hcqs.get h).bind (·.cq) }
      ((((p.setWorld (w.createQp qp)).setNode (HMP.hmpQpCreate p.node t 0).1).setCm cm
        { p.cm cm with qp := some q }).setPtrs t { p.ptrs t with hcq := some h, qp := some q }, 0)

def hmpQpRelease (p : Proc) (t : ℕ) : Proc :=
  match (p.ptrs t).qp with
  | none => p
  | some q =>
    let w := p.world.destroyQp q
    ((p.setWorld ((p.ptrs t).hcq.elim w w.releaseHcq)).setNode
      (HMP.hmpQpRelease p.node t)).setPtrs t { p.ptrs t with hcq := none }

/-- The calls of `on_cm_route_resolved`. -/
structure RouteCalls where
  qp : QpCalls := {}
  recv₁ : PostOutcome := {}
  recv₂ : PostOutcome := {}
  connect : ℤ := 0
  deriving DecidableEq

def onCmRouteResolved (p : Proc) (t : ℕ) (cm : CmId) (d : HmpDevice) (o : RouteCalls) : Proc × ℤ :=
  let r := p.hmpQpCreate t cm d o.qp
  if r.2 ≠ 0 then r
  else
    let p := r.1.setNode (hmpPrePostRecv r.1.node t o.recv₁ o.recv₂)
    if o.connect ≠ 0 then
      let p := p.hmpQpRelease t
      (p.setNode (({ p.node with stop := true }).setState t .error), o.connect)
    else (p, 0)

def hmpTransportCreate (p : Proc) (o : CreateCalls) : Proc × Option ℕ :=
  if o.calloc then
    match p.world.hmpEventChannelCreate o.toChannelCalls with
    | (w, none) => (p.setWorld w, none)
    | (w, some fd) =>
      let r := HMP.hmpTransportCreate p.node true
      (((p.setWorld w).setNode r.1).setPtrs p.node.nextTrans { eventChannel := some fd }, r.2)
  else (p, none)

/-- The calls of `on_cm_connect_request`; `verbs` is `event->id->verbs`. -/
structure RequestCalls where
  create : CreateCalls := {}
  verbs : ℕ := 0
  qp : QpCalls := {}
  recv₁ : PostOutcome := {}
  recv₂ : PostOutcome := {}
  accept : ℤ := 0
  deriving DecidableEq

/-- The part behind the queue pair. -/
def requestAccept (p : Proc) (t : ℕ) (peerAddr : String) (o : RequestCalls) : Proc × ℤ :=
  let r := HMP.requestAccept (requestRegister p.node t peerAddr) t
    { recv₁ := o.recv₁, recv₂ := o.recv₂, accept := o.accept }
  if r.2 ≠ 0 then (p.setNode r.1, r.2) else (p.setNode (r.1.setState t .connecting), 0)

/-- `rdma_trans->cm_id`, `event->id->context` and `rdma_trans->device`; `cm` is `event->id`. -/
def requestDevice (p : Proc) (t : ℕ) (cm : CmId) (o : RequestCalls) : Proc :=
  (p.setNode (p.node.setTrans t { p.node.trans t with
    cmId := some cm, device := hmpDeviceLookup p.node o.verbs })).setCm cm
      { p.cm cm with context := some t }

def onCmConnectRequest (p : Proc) (cm : CmId) (peerAddr : String) (o : RequestCalls) : Proc × ℤ :=
  match p.hmpTransportCreate o.create with
  | (p, none) => (p, -1)
  | (p, some t) =>
    match hmpDeviceLookup p.node o.verbs with
    | none => (p.requestDevice t cm o, -1)
    | some d =>
      let r := (p.requestDevice t cm o).hmpQpCreate t cm d o.qp
      if r.2 ≠ 0 then r else r.1.requestAccept t peerAddr o

/-- `rdma_destroy_qp`, and both descriptors leave the epoll set. -/
def onCmDisconnected (p : Proc) (t : ℕ) (cm : CmId) : Proc × ℤ :=
  let w := (p.cm cm).qp.elim p.world p.world.destroyQp
  let compChannel := ((p.ptrs t).hcq.bind w.hcqs.get).bind (·.compChannel)
  let w := compChannel.elim w w.delEventFd
  let w := (p.ptrs t).eventChannel.elim w w.delEventFd
  (((p.setWorld w).setCm cm { p.cm cm with qp := none }).setNode (HMP.onCmDisconnected p.node t).1, 0)

/-- A CM event with the results of the calls that its handler makes. -/
inductive CmCalls where
  | addrResolved (verbs : ℕ) (route : ℤ)
  | routeResolved (o : RouteCalls)
  | connectRequest (cm : CmId) (peerAddr : String) (o : RequestCalls)
  | established (peer : SockAddr) (o : PostOutcome)
  | disconnected
  | other (type : UnhandledType)
  deriving DecidableEq

/-- `none`: the handler goes through a `cm_id` or a device that is `NULL`. -/
def hmpHandleEcEvent (p : Proc) (t : ℕ) : CmCalls → Option (Proc × ℤ)
  | .addrResolved verbs route =>
    let r := onCmAddrResolved p.node t verbs route
    some (p.setNode r.1, r.2)
  | .routeResolved o =>
    (p.node.trans t).cmId.bind fun cm => (p.node.trans t).device.map fun d =>
      p.onCmRouteResolved t cm d o
  | .connectRequest cm peerAddr o => some (p.onCmConnectRequest cm peerAddr o)
  | .established peer o =>
    let r := onCmEstablished p.node t peer o
    some (p.setNode r.1, r.2)
  | .disconnected => (p.node.trans t).cmId.map fun cm => p.onCmDisconnected t cm
  | .other type =>
    let r := ecError p.node t type
    some (p.setNode r.1, r.2)

end Proc

end HMP
