import Hmp.Spec.ProcRun

/-! `hmp_node_release`: its calls in their order, and what has to be gone before each of them. -/

namespace HMP

/-- The calls that give something back. `freeBaseAddr`: the block of the pool. -/
inductive ReleaseCall where
  | ibvDeallocPd (pd : ℕ)
  | freeDevice (d : HmpDevice)
  | freePageArray
  | freeBaseAddr (addr length : ℕ)
  | freeMempool
  deriving DecidableEq

def hmpDeviceRelease (d : HmpDevice) : List ReleaseCall := [.ibvDeallocPd d.pd, .freeDevice d]

def hmpTransportRelease (nd : Node) : List ReleaseCall := nd.devList.flatMap hmpDeviceRelease

def hmpMemDestroy (nd : Node) : List ReleaseCall :=
  match nd.dramMempool with
  | none => []
  | some pool => [.freePageArray, .freeBaseAddr pool.baseAddr pool.size, .freeMempool]

/-- The statements behind `pthread_join`. -/
def hmpNodeRelease (nd : Node) : List ReleaseCall := hmpTransportRelease nd ++ hmpMemDestroy nd

namespace ReleaseCall

/-- The result of `ibv_dealloc_pd` is not looked at. -/
def exec (p : Proc) : ReleaseCall → Proc
  | .ibvDeallocPd pd => p.setWorld (p.world.ibvDeallocPd pd)
  | .freeDevice d => p.setNode { p.node with devList := p.node.devList.erase d }
  | .freePageArray | .freeBaseAddr .. => p
  | .freeMempool => p.setNode { p.node with dramMempool := none }

/-- Every call finds `ok` in the process that the calls before it have left. -/
def Ordered (ok : Proc → ReleaseCall → Prop) : Proc → List ReleaseCall → Prop
  | _, [] => True
  | p, c :: cs => ok p c ∧ Ordered ok (c.exec p) cs

end ReleaseCall

/-- The bytes `addr` to `addr + length` and `addr'` to `addr' + length'` have one in common. -/
def Overlap (addr length addr' length' : ℕ) : Prop := addr < addr' + length' ∧ addr' < addr + length

namespace Proc

/-- A registered region lies in the block. -/
def Registered (p : Proc) (addr length : ℕ) : Prop :=
  ∃ m mr, p.world.mrs.get m = some mr ∧ Overlap mr.addr mr.length addr length

/-- A request that a queue pair has not executed has a buffer in the block. -/
def Outstanding (p : Proc) (addr length : ℕ) : Prop :=
  ∃ t, (p.node.qp t).live = true ∧
    ∃ sge ∈ (p.node.qp t).sq.map (·.sge) ++ (p.node.qp t).rq.map (·.sge),
      Overlap sge.addr sge.length addr length

/-- No region and no queue pair is left in a protection domain that goes. -/
def PdOk (p : Proc) : ReleaseCall → Prop
  | .ibvDeallocPd pd => ¬ p.world.PdUsed pd
  | _ => True

/-- The adapter does not know a block that goes. -/
def BufferOk (p : Proc) : ReleaseCall → Prop
  | .freeBaseAddr addr length => ¬ p.Registered addr length ∧ ¬ p.Outstanding addr length
  | _ => True

end Proc

/-- `hmp_node_init` is through, no call is under way, and the event thread has been joined. -/
def ProcRun.AtRelease (s : ProcRun) : Prop :=
  s.todo = [] ∧ s.proc.real.app = .idle ∧ s.proc.real.running = false

end HMP
