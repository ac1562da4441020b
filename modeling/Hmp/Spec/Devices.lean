import Hmp.Spec.Resources

/-! The device list of a node, the region of its pool, and connecting to a peer, with every call
into the libraries that may fail. -/

namespace HMP

/-- A context that `rdma_get_devices` has returned, with the results of the calls of
`hmp_device_init` for it. `attr`: what `ibv_query_device` stores. -/
structure IbvContext where
  verbs : ℕ
  name : String
  calloc : Bool := true
  query : ℤ := 0
  attr : IbvDeviceAttr := {}
  allocPd : Bool := true
  deriving DecidableEq

/-- The calls of `hmp_mempool_create`, the first `calloc` among them. -/
structure PoolCalls where
  mempool : Bool
  base : Option (Block (poolPages HMP_DRAM_MEM_SIZE * HMP_PAGE_SIZE))
  pageArray : Bool
  keys : Option MrKeys

/-- `hmp_mempool_create` gets as far as `ibv_reg_mr`. -/
def PoolCalls.registers (o : PoolCalls) : Bool := o.mempool && o.base.isSome && o.pageArray

/-- The calls of `hmp_transport_connect`; `cm`: the id that `rdma_create_id` gives. -/
structure ConnectCalls where
  cm : CmId
  pton : ℤ := 1
  createId : ℤ := 0
  resolve : ℤ := 0

namespace Proc

def hmpDeviceInit (p : Proc) (c : IbvContext) : Proc × Option HmpDevice :=
  if c.calloc then
    if c.query < 0 then (p, none)
    else if c.allocPd then
      (p.setWorld (p.world.ibvAllocPd c.verbs),
        some { verbs := c.verbs, pd := p.world.pds.next, deviceAttr := c.attr })
    else (p, none)
  else (p, none)

def skipDevice (p : Proc) : Proc := { p with numDevices := p.numDevices - 1 }

/-- The body of the loop of `hmp_device_init_handle`; `none`: the entry is `NULL`. -/
def deviceInitEntry (p : Proc) : Option IbvContext → Proc
  | none => p.skipDevice
  | some c =>
    if c.name = "siw_lo" then p.skipDevice
    else match p.hmpDeviceInit c with
      | (p, none) => p.skipDevice
      | (p, some d) => p.setNode { p.node with devList := d :: p.node.devList }

/-- `none`: `rdma_get_devices` fails. -/
def hmpDeviceInitHandle (p : Proc) (ctxList : Option (List (Option IbvContext))) : Proc :=
  let p := p.setNode { p.node with devList := [] }
  match ctxList with
  | none => p
  | some l => l.foldl deviceInitEntry { p with numDevices := l.length }

/-- `none`: `curnode.listen_trans->device` is `NULL`. -/
def hmpMempoolCreate (p : Proc) (o : PoolCalls) : Option (Proc × Option HmpMempool) :=
  if o.registers then
    p.listenDevice.map fun d =>
      match HMP.hmpMempoolCreate HMP_DRAM_MEM_SIZE o.base o.pageArray o.keys with
      | none => (p, none)
      | some pool =>
        ({ p.setWorld (p.world.ibvRegMr { pd := d.pd, addr := pool.baseAddr, length := pool.size }) with
           mr := some p.world.mrs.next }, some pool)
  else some (p, none)

/-- `curnode.connect_trans[i]=hmp_transport_create(...)`. -/
def peerCreate (p : Proc) (i : ℕ) (o : CreateCalls) : Proc × Option ℕ :=
  let r := p.hmpTransportCreate o
  (r.1.setNode { r.1.node with connectTrans := Function.update r.1.node.connectTrans i r.2 }, r.2)

/-- The context of the new id is the transport. -/
def hmpTransportConnect (p : Proc) (t : ℕ) (url : String) (port : ℤ) (o : ConnectCalls) :
    Proc × ℤ :=
  match connectEntry p.node t url port o.pton with
  | (nd, some ret) => (p.setNode nd, ret)
  | (nd, none) =>
    match connectCreateId nd t o.cm o.createId with
    | (nd, some ret) => (p.setNode nd, ret)
    | (nd, none) =>
      let p := p.setCm o.cm { context := some t }
      match connectResolve nd t o.resolve with
      | (nd, some ret) => (p.setNode nd, ret)
      | (nd, none) => (p.setNode (nd.setState t .connecting), 0)

end Proc

end HMP
