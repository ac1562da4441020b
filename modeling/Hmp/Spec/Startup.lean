import Hmp.Spec.Mem
import Hmp.Spec.Transport

/-! The statements of `hmp_node_init` that touch the transport table, the pool
and the region of a transport. -/

namespace HMP

/-- The node whose address a process finds at its own interface. -/
def hmpSetCurnodeId (config : HmpConfig) (addr : String) : Option ℕ :=
  (List.range config.nodeCnt).find? fun i => (config.nodeInfos i).addr = addr

/-- `hmp_mem_init` with the pool that `hmp_mempool_create` returned. -/
def hmpMemInit (nd : Node) (pool : HmpMempool) : Node :=
  let x := nd.config.nodeInfos nd.config.curnodeId
  { nd.setInfo nd.config.curnodeId
      { x with dramMr := { x.dramMr with addr := pool.baseAddr, rkey := pool.mr.rkey } } with
    dramMempool := some pool }

/-- `memset(curnode.connect_trans, 0, ...)`. -/
def clearTable (nd : Node) : Node :=
  { nd with connectTrans := fun k => if k < HMP_NODE_NUM then none else nd.connectTrans k }

/-- `curnode.connect_trans[i]=hmp_transport_create(...)`. -/
def peerCreate (nd : Node) (i : ℕ) (ok : Bool) : Node × Option ℕ :=
  let r := hmpTransportCreate nd ok
  ({ r.1 with connectTrans := Function.update r.1.connectTrans i r.2 }, r.2)

/-- The four assignments through `curnode.connect_trans[i]`, `t` being its value. -/
def peerNodeId (nd : Node) (t i : ℕ) : Node := nd.setTrans t { nd.trans t with nodeId := i }

def peerCurRecv (nd : Node) (t : ℕ) : Node :=
  nd.setTrans t { nd.trans t with region := { (nd.trans t).region with curRecv := 0 } }

def peerSendAddr (nd : Node) (t i : ℕ) : Node :=
  nd.setTrans t { nd.trans t with
    region := { (nd.trans t).region with sendAddr := nd.baseAddr + i * 4 * HMP_TASK_SIZE } }

def peerRecvAddr (nd : Node) (t : ℕ) : Node :=
  nd.setTrans t { nd.trans t with
    region := { (nd.trans t).region with
      recvAddr := (nd.trans t).region.sendAddr + HMP_TASK_SIZE } }

def peerRegion (nd : Node) (t i : ℕ) : Node :=
  peerRecvAddr (peerSendAddr (peerCurRecv (peerNodeId nd t i) t) t i) t

/-- The assignments of `hmp_node_init` give the region that a request gets. -/
theorem peerRegion_eq (nd : Node) (t i : ℕ) :
    peerRegion nd t i = nd.setTrans t { nd.trans t with nodeId := i, region := slotRegion nd i } := by
  simp only [peerRegion, peerRecvAddr, peerSendAddr, peerCurRecv, peerNodeId, Node.setTrans,
    Function.update_self, Function.update_idem]
  rfl

end HMP
