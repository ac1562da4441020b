import Hmp.Spec.Attempt
import Hmp.Spec.Transfer

/-! A connection request from an address that the search in `on_cm_connect_request`
does not find, beside the same run without the request. -/

namespace HMP

/-- No node with a smaller id is configured with the address. -/
def UnknownPeer (nd : Node) (peerAddr : String) : Prop :=
  ∀ i < nd.config.curnodeId, (nd.config.nodeInfos i).addr ≠ peerAddr

/-- The transport that a step of the adapter or of the event thread is about. -/
def TransferEvent.trans : TransferEvent → Option ℕ
  | .complete t _ | .recv t _ _ | .poll t | .cm t _ => some t
  | _ => none

/-- A receive ends without a message, or a completion is handled. -/
def TransferEvent.Flushes : TransferEvent → Prop
  | .recv _ status _ => status ≠ .success
  | .poll _ => True
  | _ => False

instance : DecidablePred TransferEvent.Flushes
  | .recv _ status _ => inferInstanceAs (Decidable (status ≠ .success))
  | .poll _ => inferInstanceAs (Decidable True)
  | .call .. | .check _ | .ret | .complete .. | .cm .. | .loopExit | .store .. | .storeRemote .. =>
    inferInstanceAs (Decidable False)

/-- The events of a connection come for a transport that exists. -/
def Transfer.OnExisting (s : Transfer) : TransferEvent → Prop
  | .cm t (.routeResolved _) | .cm t (.established _ _) | .cm t .disconnected =>
    t < s.node.nextTrans
  | _ => True

/-- The run with the request and the one without it, in which later objects get the same
addresses. `t`: the transport that has been created for the request. -/
structure Twin where
  real : Transfer
  without : Transfer
  t : Option ℕ
  accepted : Bool

namespace Twin

/-- Behind the handler of the request. -/
def request (s : Transfer) (cm : CmId) (peerAddr : String) (o : RequestOutcome) : Twin :=
  let r := onCmConnectRequest s.node cm peerAddr o
  { real := { s with node := r.1 }
    without := { s with node := { s.node with
      nextTrans := r.1.nextTrans, nextTask := r.1.nextTask } }
    t := if s.node.nextTrans < r.1.nextTrans then some s.node.nextTrans else none
    accepted := r.2 = 0 }

/-- The step is about the connection of the request. -/
def OnIt (s : Twin) (e : TransferEvent) : Prop := ∃ t, s.t = some t ∧ e.trans = some t

instance (s : Twin) (e : TransferEvent) : Decidable (s.OnIt e) :=
  decidable_of_iff (s.t.isSome = true ∧ e.trans = s.t) (by
    cases h : s.t <;> simp [OnIt, h])

/-- Every other step is taken in both runs. -/
def step (s : Twin) (e : TransferEvent) : Option Twin :=
  (s.real.step e).map fun real => { s with
    real := real
    without := if s.OnIt e then s.without else (s.without.step e).getD s.without }

def sys (s : Transfer) (cm : CmId) (peerAddr : String) (o : RequestOutcome) :
    Sys Twin TransferEvent where
  init := fun x => x = request s cm peerAddr o
  step := step

/-- On a connection that has not been accepted, the receives may be flushed and nothing else. -/
def Connected (s : Twin) (e : TransferEvent) : Prop := s.OnIt e → s.accepted = true ∨ e.Flushes

instance (s : Twin) (e : TransferEvent) : Decidable (s.Connected e) :=
  inferInstanceAs (Decidable (_ → _ ∨ _))

/-- What is posted on `t` lies in the pool. -/
def PostedInPool (nd : Node) (t : ℕ) : Prop :=
  ∀ pool ∈ nd.dramMempool,
    (∀ wr ∈ (nd.qp t).rq, Transfer.InPool pool wr.sge.addr wr.sge.length) ∧
      ∀ wr ∈ (nd.qp t).sq, Transfer.InPool pool wr.sge.addr wr.sge.length

structure Unaffected (s : Twin) : Prop where
  connectTrans : s.real.node.connectTrans = s.without.node.connectTrans
  nodeInfos : s.real.node.config.nodeInfos = s.without.node.config.nodeInfos
  posted : ∀ t ∈ s.t, PostedInPool s.real.node t
  written : ∀ pool ∈ s.real.node.dramMempool, ∀ x,
    x < pool.baseAddr ∨ pool.baseAddr + pool.size ≤ x →
      s.real.node.mem x = s.without.node.mem x

/-- The request is not accepted, and whatever follows goes on as it would without it. -/
def Rejected (s : Transfer) (cm : CmId) (peerAddr : String) (o : RequestOutcome) : Prop :=
  (request s cm peerAddr o).accepted = false ∧
    ∀ x, (sys s cm peerAddr o).Reach Connected x → Unaffected x

/-- The handler returns before it looks for the peer. -/
def GivesUp (nd : Node) (o : RequestOutcome) : Prop :=
  o.create = false ∨ hmpDeviceLookup nd o.verbs = none ∨ o.qp ≠ 0

/-- Every receive that the handler posts lies in the pool, where the first one goes to address 0
and each task takes the next slot. -/
def ReceivesInPool (nd : Node) (o : RequestOutcome) : Prop :=
  o.recv₁.posted = false ∧ (o.recv₂.posted = true → o.recv₁.task = true ∧
    ∀ pool ∈ nd.dramMempool, Transfer.InPool pool HMP_TASK_SIZE HMP_TASK_SIZE)

end Twin

end HMP
