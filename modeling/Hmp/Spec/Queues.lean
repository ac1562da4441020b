import Hmp.Spec.Cluster

/-! The queues of one transport: any number of threads post requests on it, the
adapter completes them, and the event thread polls, as late as it likes. -/

namespace HMP

def CQE_ALLOC_SIZE : ℕ := 20
def MAX_SEND_WR : ℕ := 128
def MAX_RECV_WR : ℕ := 128

/-- The entries that `hmp_cq_get` requests; `maxCqe` is the limit of the device. -/
def cqAllocSize (maxCqe : ℕ) : ℕ := min CQE_ALLOC_SIZE maxCqe

/-- `transfer`: a call of `hmp_read` or `hmp_write` up to its post. `send`, `recv`:
`hmp_post_send` and `hmp_post_recv`. `complete`, `receive`: the adapter. `poll`: the event
thread. -/
inductive QueueEvent where
  | transfer (op : TransferOp) (localAddr : ℕ) (hmAddr : BitVec 64) (length : ℤ) (o : PostOutcome)
  | send (msg : HmpMsg) (o : PostOutcome)
  | recv (o : PostOutcome)
  | complete (status : IbvWcStatus)
  | receive (status : IbvWcStatus) (bytes : List UInt8)
  | poll

namespace Queues

/-- A request is taken only while its queue has room. -/
def SendRoom (s : Transfer) (t : ℕ) (o : PostOutcome) : Prop :=
  o.posted = true → (s.node.qp t).sq.length < MAX_SEND_WR

def RecvRoom (s : Transfer) (t : ℕ) (o : PostOutcome) : Prop :=
  o.posted = true → (s.node.qp t).rq.length < MAX_RECV_WR

instance (s : Transfer) (t : ℕ) (o : PostOutcome) : Decidable (SendRoom s t o) :=
  inferInstanceAs (Decidable (_ → _))

instance (s : Transfer) (t : ℕ) (o : PostOutcome) : Decidable (RecvRoom s t o) :=
  inferInstanceAs (Decidable (_ → _))

def transferStep (t : ℕ) (s : Transfer) (op : TransferOp) (localAddr : ℕ) (hmAddr : BitVec 64)
    (length : ℤ) (o : PostOutcome) : Option Transfer :=
  match Transfer.access s.node op localAddr hmAddr length with
  | some (.remote u addr) =>
    if u = t ∧ hmpTransportCheckState (s.node.trans t).transState = some 0 ∧ SendRoom s t o then
      some { s with node := (Cluster.rdmaPostOf op s.node t localAddr addr length o).1 }
    else none
  | _ => none

def step (t : ℕ) (s : Transfer) : QueueEvent → Option Transfer
  | .transfer op localAddr hmAddr length o => transferStep t s op localAddr hmAddr length o
  | .send msg o =>
    if SendRoom s t o then some { s with node := hmpPostSend s.node t msg o } else none
  | .recv o => if RecvRoom s t o then some { s with node := hmpPostRecv s.node t o } else none
  | .complete status => s.completeStep t status
  | .receive status bytes => s.recvStep t status bytes
  | .poll => s.pollStep t

/-- The queue pair as `hmp_qp_create` leaves it. -/
def Start (t : ℕ) (s : Transfer) : Prop := s.node.qp t = { live := true, registered := true }

def sys (t : ℕ) : Sys Transfer QueueEvent where
  init := Start t
  step := step t

/-- The requests of a transport that have been posted and not polled. -/
def outstanding (s : Transfer) (t : ℕ) : ℕ :=
  (s.node.qp t).sq.length + (s.node.qp t).rq.length + (s.node.qp t).cq.length

/-- A request is posted only while the completion queue has an entry for it. -/
def WithinCq (t maxCqe : ℕ) (s : Transfer) : QueueEvent → Prop
  | .transfer _ _ _ _ o | .send _ o | .recv o =>
    o.posted = true → outstanding s t < cqAllocSize maxCqe
  | .complete _ | .receive _ _ | .poll => True

instance (t maxCqe : ℕ) (s : Transfer) : (e : QueueEvent) → Decidable (WithinCq t maxCqe s e)
  | .transfer _ _ _ _ o | .send _ o | .recv o =>
    inferInstanceAs (Decidable (o.posted = true → outstanding s t < cqAllocSize maxCqe))
  | .complete _ | .receive _ _ | .poll => .isTrue trivial

/-- Nothing is posted, and the event thread is late. -/
def Delayed (_ : Transfer) : QueueEvent → Prop
  | .complete _ | .receive _ _ => True
  | .transfer .. | .send .. | .recv _ | .poll => False

end Queues

end HMP
